import ConwayTx.Value
import ConwayTx.Proofs.OrdMap
import Mathlib.Algebra.GroupWithZero.Nat
import Mathlib.Data.List.Dedup

namespace ConwayTx

inductive Component
  | lovelace
  | asset (id : AssetId)
  deriving DecidableEq

section Entries

variable {α : Type} {m : OrdMap PolicyId (OrdMap AssetName α)}

theorem mem_entries_iff {id : AssetId} {x : α} :
    (id, x) ∈ m.toList.flatMap (fun p => p.2.toList.map (fun n => ((⟨p.1, n.1⟩ : AssetId), n.2))) ↔
      (m.get? id.policy).bind (·.get? id.name) = some x := by
  simp only [List.mem_flatMap, List.mem_map, Option.bind_eq_some_iff, OrdMap.get?_eq_some_iff]
  constructor
  · rintro ⟨⟨policy, names⟩, hm, ⟨name, x⟩, hn, h⟩
    cases h
    exact ⟨names, hm, hn⟩
  · rintro ⟨names, hm, hn⟩
    exact ⟨(id.policy, names), hm, (id.name, x), hn, rfl⟩

theorem entries_ids_nodup :
    ((m.toList.flatMap (fun p => p.2.toList.map (fun n => ((⟨p.1, n.1⟩ : AssetId), n.2)))).map
      Prod.fst).Nodup := by
  simp only [List.map_flatMap, List.map_map, Function.comp_def]
  rw [List.nodup_flatMap]
  constructor
  · rintro ⟨policy, names⟩ _
    have nodup : (names.toList.map Prod.fst).Nodup := names.keys_nodup
    rw [List.Nodup, List.pairwise_map] at nodup ⊢
    refine nodup.imp ?_
    intro x y h same
    exact h (AssetId.mk.inj same).2
  · refine m.sorted.imp ?_
    intro x y before
    simp only [Function.onFun, List.disjoint_left, List.mem_map]
    rintro id ⟨_, _, rfl⟩ ⟨_, _, same⟩
    exact before.ne (AssetId.mk.inj same).1.symm

theorem sum_map_of_nodup {ι : Type} {es : List (ι × α)} (nodup : (es.map Prod.fst).Nodup)
    {f : ι × α → Nat} {i : ι} (other : ∀ e, e.1 ≠ i → f e = 0) :
    (i ∉ es.map Prod.fst → (es.map f).sum = 0) ∧
    (∀ x, (i, x) ∈ es → (es.map f).sum = f (i, x)) := by
  induction es with
  | nil => simp
  | cons e rest ih =>
    rw [List.map_cons, List.nodup_cons] at nodup
    have ih := ih nodup.2
    rw [List.map_cons, List.map_cons, List.sum_cons, List.mem_cons, not_or]
    constructor
    · rintro ⟨ne, absent⟩
      rw [other e (Ne.symm ne), ih.1 absent]
    · intro x mem
      rcases List.mem_cons.mp mem with rfl | mem
      · rw [ih.1 nodup.1, Nat.add_zero]
      · have ne : e.1 ≠ i := by
          rintro rfl
          exact nodup.1 (List.mem_map.mpr ⟨_, mem, rfl⟩)
        rw [other e ne, ih.2 x mem, Nat.zero_add]

end Entries

namespace Assets

theorem quantity_eq_getD (m : Assets) (id : AssetId) :
    m.quantity id.policy id.name = ((m.get? id.policy).bind (·.get? id.name)).getD 0 := rfl

theorem quantity_set_self (m : Assets) (id : AssetId) (q : UInt64) :
    (m.set id.policy id.name q).quantity id.policy id.name = q := by
  simp [set, quantity]

theorem quantity_set_of_ne (m : Assets) {id other : AssetId} (q : UInt64) (h : other ≠ id) :
    (m.set id.policy id.name q).quantity other.policy other.name =
      m.quantity other.policy other.name := by
  by_cases same : id.policy = other.policy
  · have ne : id.name ≠ other.name := by
      intro names
      apply h
      cases id
      cases other
      simp_all
    simp only [set, quantity, same, OrdMap.get?_insert_self, Option.bind_some]
    rw [OrdMap.get?_insert_of_ne _ q ne]
    cases m.get? other.policy <;> rfl
  · simp only [set, quantity]
    rw [OrdMap.get?_insert_of_ne _ _ same]

theorem entries_nodup (m : Assets) : (m.entries.map Prod.fst).Nodup := entries_ids_nodup

theorem mem_entries_or (m : Assets) (id : AssetId) :
    (id, m.quantity id.policy id.name) ∈ m.entries ∨
      id ∉ m.entries.map Prod.fst ∧ m.quantity id.policy id.name = 0 := by
  rw [quantity_eq_getD]
  cases found : (m.get? id.policy).bind (·.get? id.name) with
  | none =>
    refine .inr ⟨fun mem => ?_, rfl⟩
    obtain ⟨⟨_, q⟩, entry, rfl⟩ := List.mem_map.mp mem
    exact Option.some_ne_none q ((mem_entries_iff.mp entry).symm.trans found)
  | some q => exact .inl (mem_entries_iff.mpr found)

theorem quantity_of_mem {m : Assets} {id : AssetId} {q : UInt64} (h : (id, q) ∈ m.entries) :
    m.quantity id.policy id.name = q := by
  rw [quantity_eq_getD, mem_entries_iff.mp h, Option.getD_some]

def combine (f : UInt64 → UInt64 → Option UInt64) (m : Assets) (e : AssetId × UInt64) :
    Option Assets := do
  let q ← f (m.quantity e.1.policy e.1.name) e.2
  return m.set e.1.policy e.1.name q

theorem quantity_combine {f : UInt64 → UInt64 → Option UInt64} {es : List (AssetId × UInt64)}
    (nodup : (es.map Prod.fst).Nodup) {m m' : Assets} (h : es.foldlM (combine f) m = some m')
    (id : AssetId) :
    (id ∉ es.map Prod.fst →
      m'.quantity id.policy id.name = m.quantity id.policy id.name) ∧
    (∀ q, (id, q) ∈ es →
      f (m.quantity id.policy id.name) q = some (m'.quantity id.policy id.name)) := by
  induction es generalizing m with
  | nil =>
    cases h
    simp
  | cons e rest ih =>
    rw [List.map_cons, List.nodup_cons] at nodup
    rw [List.foldlM_cons, Option.bind_eq_bind, Option.bind_eq_some_iff] at h
    obtain ⟨next, step, h⟩ := h
    obtain ⟨q, combined, rfl⟩ : ∃ q, f (m.quantity e.1.policy e.1.name) e.2 = some q ∧
        m.set e.1.policy e.1.name q = next := by
      simpa [combine, Option.bind_eq_some_iff] using step
    have ih := ih nodup.2 h
    by_cases same : id = e.1
    · subst same
      have kept := ih.1 nodup.1
      rw [quantity_set_self] at kept
      refine ⟨fun absent => absurd List.mem_cons_self absent, fun q' mem => ?_⟩
      rcases List.mem_cons.mp mem with here | there
      · obtain rfl : q' = e.2 := congrArg Prod.snd here
        rw [combined, kept]
      · exact absurd (List.mem_map_of_mem there) nodup.1
    · rw [quantity_set_of_ne m q same] at ih
      constructor
      · intro absent
        rw [List.map_cons, List.mem_cons, not_or] at absent
        exact ih.1 absent.2
      · intro q' mem
        rcases List.mem_cons.mp mem with here | there
        · exact absurd (congrArg Prod.fst here) same
        · exact ih.2 q' there

@[simp] theorem quantity_prune (m : Assets) (policy : PolicyId) (name : AssetName) :
    m.prune.quantity policy name = m.quantity policy name := by
  simp only [prune, quantity, OrdMap.get?_filter, OrdMap.get?_mapValues]
  cases m.get? policy with
  | none => rfl
  | some names =>
    have drop : ∀ o : Option UInt64, (o.filter (fun q => decide (0 < q))).getD 0 = o.getD 0 := by
      rintro (_ | q)
      · rfl
      · by_cases h : 0 < q
        · simp [Option.filter_some, h]
        · have : q = 0 := by simpa using h
          simp [Option.filter_some, this]
    rw [Option.map_some, Option.bind_some, ← drop (names.get? name),
      ← OrdMap.get?_filter (fun _ q => decide (0 < q)), Option.filter_some]
    by_cases empty : (names.filter (fun _ q => decide (0 < q))).isEmpty
    · rw [OrdMap.isEmpty_iff.mp empty name]
      simp [empty]
    · simp [empty]

end Assets

namespace Value

def amount (v : Value) : Component → Nat
  | .lovelace => v.lovelace.toNat
  | .asset id => (v.quantity id).toNat

theorem amount_le (v : Value) (c : Component) : v.amount c ≤ UInt64.size - 1 := by
  cases c with
  | lovelace => exact Nat.le_sub_one_of_lt v.lovelace.toNat_lt_size
  | asset id => exact Nat.le_sub_one_of_lt (v.quantity id).toNat_lt_size

@[simp] theorem amount_zero (c : Component) : zero.amount c = 0 := by cases c <;> rfl

@[simp] theorem amount_ofLovelace_lovelace (n : UInt64) :
    (ofLovelace n).amount .lovelace = n.toNat := rfl

@[simp] theorem amount_ofLovelace_asset (n : UInt64) (id : AssetId) :
    (ofLovelace n).amount (.asset id) = 0 := rfl

theorem quantity_add (v w : Value) (id : AssetId) :
    (v + w).quantity id = (v.quantity id).saturatingAdd (w.quantity id) := by
  have sum : w.assets.entries.foldlM (Assets.combine (fun p q => some (p.saturatingAdd q))) v.assets
      = some (w.assets.entries.foldl (fun m e => Assets.set m e.1.policy e.1.name
          ((Assets.quantity m e.1.policy e.1.name).saturatingAdd e.2)) v.assets) :=
    List.foldlM_pure
  have each := Assets.quantity_combine (Assets.entries_nodup w.assets) sum id
  have pruned : (v + w).quantity id = Assets.quantity (w.assets.entries.foldl (fun m e =>
      Assets.set m e.1.policy e.1.name
        ((Assets.quantity m e.1.policy e.1.name).saturatingAdd e.2)) v.assets) id.policy id.name :=
    Assets.quantity_prune _ _ _
  rw [pruned]
  rcases Assets.mem_entries_or w.assets id with mem | ⟨absent, zero⟩
  · exact (Option.some.inj (each.2 _ mem)).symm
  · have nothing : w.quantity id = 0 := zero
    rw [nothing, each.1 absent]
    apply UInt64.toNat_inj.mp
    have := (v.quantity id).toNat_lt_size
    rw [UInt64.toNat_saturatingAdd]
    change (v.quantity id).toNat = min ((v.quantity id).toNat + 0) _
    omega

@[simp] theorem amount_add (v w : Value) (c : Component) :
    (v + w).amount c = min (v.amount c + w.amount c) (UInt64.size - 1) := by
  cases c with
  | lovelace => exact UInt64.toNat_saturatingAdd _ _
  | asset id => rw [amount, quantity_add, UInt64.toNat_saturatingAdd]; rfl

theorem amount_sum (vs : List Value) (c : Component) :
    (sum vs).amount c = min (vs.map (amount · c)).sum (UInt64.size - 1) := by
  suffices ∀ v : Value, (vs.foldl add v).amount c =
      min (v.amount c + (vs.map (amount · c)).sum) (UInt64.size - 1) by
    have all := this zero
    rwa [amount_zero, Nat.zero_add] at all
  induction vs with
  | nil =>
    intro v
    have := v.amount_le c
    simp only [List.foldl_nil, List.map_nil, List.sum_nil]
    omega
  | cons w rest ih =>
    intro v
    have first : (v.add w).amount c = min (v.amount c + w.amount c) (UInt64.size - 1) :=
      amount_add v w c
    rw [List.foldl_cons, ih, first, List.map_cons, List.sum_cons]
    omega

theorem amount_of_checkedAdd {v w u : Value} (h : v.checkedAdd w = some u) (c : Component) :
    u.amount c = v.amount c + w.amount c := by
  simp only [checkedAdd, Option.bind_eq_bind, Option.bind_eq_some_iff] at h
  obtain ⟨lovelace, hl, assets, ha, h⟩ := h
  obtain rfl := Option.some.inj h
  cases c with
  | lovelace => exact UInt64.checkedAdd_eq_some_iff.mp hl
  | asset id =>
    have each := Assets.quantity_combine (Assets.entries_nodup w.assets) ha id
    have pruned : quantity ⟨lovelace, assets.prune⟩ id = assets.quantity id.policy id.name :=
      Assets.quantity_prune _ _ _
    simp only [amount, pruned]
    rcases Assets.mem_entries_or w.assets id with mem | ⟨absent, zero⟩
    · exact UInt64.checkedAdd_eq_some_iff.mp (each.2 _ mem)
    · have nothing : w.quantity id = 0 := zero
      rw [nothing, each.1 absent]
      rfl

theorem amount_of_foldlM {vs : List Value} {v u : Value}
    (h : vs.foldlM checkedAdd v = some u) (c : Component) :
    u.amount c = v.amount c + (vs.map (amount · c)).sum := by
  induction vs generalizing v with
  | nil =>
    cases h
    simp
  | cons w rest ih =>
    rw [List.foldlM_cons, Option.bind_eq_bind, Option.bind_eq_some_iff] at h
    obtain ⟨next, step, h⟩ := h
    rw [ih h, amount_of_checkedAdd step, List.map_cons, List.sum_cons]
    omega

@[simp] theorem amount_saturatingSub (v w : Value) (c : Component) :
    (v.saturatingSub w).amount c = v.amount c - w.amount c := by
  cases c with
  | lovelace => exact UInt64.toNat_saturatingSub _ _
  | asset id =>
    have pruned : (v.saturatingSub w).quantity id = Assets.quantity (v.assets.mapValues
        (fun policy names => names.mapValues (fun name q =>
          q.saturatingSub (w.assets.quantity policy name)))) id.policy id.name :=
      Assets.quantity_prune _ _ _
    rw [amount, pruned]
    simp only [amount, quantity, Assets.quantity, OrdMap.get?_mapValues]
    cases v.assets.get? id.policy with
    | none => simp
    | some names =>
      simp only [Option.map_some, Option.bind_some, OrdMap.get?_mapValues]
      cases names.get? id.name with
      | none => simp
      | some q => simp

theorem covers_iff {v w : Value} : v.covers w = true ↔ ∀ c, w.amount c ≤ v.amount c := by
  simp only [covers, Bool.and_eq_true, decide_eq_true_eq, List.all_eq_true, Prod.forall]
  constructor
  · rintro ⟨lovelace, assets⟩ (_ | id)
    · exact UInt64.le_iff_toNat_le.mp lovelace
    · rcases Assets.mem_entries_or w.assets id with mem | ⟨_, zero⟩
      · exact UInt64.le_iff_toNat_le.mp (assets id _ mem)
      · have nothing : w.quantity id = 0 := zero
        simp [amount, nothing]
  · intro h
    refine ⟨UInt64.le_iff_toNat_le.mpr (h .lovelace), fun id q mem => ?_⟩
    have there : w.quantity id = q := Assets.quantity_of_mem mem
    have bound := h (.asset id)
    simp only [amount, there] at bound
    exact UInt64.le_iff_toNat_le.mpr bound

theorem amount_of_checkedSub {v w u : Value} (h : v.checkedSub w = some u) (c : Component) :
    u.amount c + w.amount c = v.amount c := by
  unfold checkedSub at h
  split at h
  · rename_i covered
    obtain rfl := Option.some.inj h
    have := covers_iff.mp covered c
    rw [amount_saturatingSub]
    omega
  · cases h

theorem hasAssets_iff {v : Value} : v.hasAssets = true ↔ ∃ id, 0 < v.amount (.asset id) := by
  simp only [hasAssets, Assets.positive, OrdMap.any_iff, decide_eq_true_eq]
  constructor
  · rintro ⟨policy, names, hm, name, q, hn, positive⟩
    refine ⟨⟨policy, name⟩, ?_⟩
    simp only [amount, quantity, Assets.quantity, hm, hn, Option.bind_some, Option.getD_some]
    exact UInt64.lt_iff_toNat_lt.mp positive
  · rintro ⟨id, positive⟩
    simp only [amount, quantity, Assets.quantity] at positive
    cases found : (v.assets.get? id.policy).bind (·.get? id.name) with
    | none => simp [found] at positive
    | some q =>
      obtain ⟨names, hm, hn⟩ := Option.bind_eq_some_iff.mp found
      rw [found] at positive
      exact ⟨id.policy, names, hm, id.name, q, hn, UInt64.lt_iff_toNat_lt.mpr positive⟩

theorem amount_asset_of_not_hasAssets {v : Value} (h : v.hasAssets = false) (id : AssetId) :
    v.amount (.asset id) = 0 := by
  by_contra positive
  have some : v.hasAssets = true := hasAssets_iff.mpr ⟨id, Nat.pos_of_ne_zero positive⟩
  simp [h] at some

theorem isZero_iff {v : Value} : v.isZero = true ↔ ∀ c, v.amount c = 0 := by
  simp only [isZero, Bool.and_eq_true, beq_iff_eq, Bool.not_eq_true']
  constructor
  · rintro ⟨lovelace, assets⟩ (_ | id)
    · simp [amount, lovelace]
    · exact amount_asset_of_not_hasAssets assets id
  · intro h
    refine ⟨UInt64.toNat_inj.mp (h .lovelace), ?_⟩
    by_contra some
    rw [Bool.not_eq_false, hasAssets_iff] at some
    obtain ⟨id, positive⟩ := some
    exact absurd (h (.asset id)) (Nat.ne_of_gt positive)

@[simp] theorem amount_withAsset (v : Value) (id : AssetId) (n : UInt64) (c : Component) :
    (v.withAsset id n).amount c =
      min (v.amount c + if c = .asset id then n.toNat else 0) (UInt64.size - 1) := by
  have bound := v.amount_le c
  unfold withAsset
  split
  · cases c with
    | lovelace =>
      simp only [reduceCtorEq, if_false, amount] at bound ⊢
      omega
    | asset other =>
      by_cases same : other = id
      · subst same
        simp only [amount, quantity, Assets.quantity_set_self, if_true,
          UInt64.toNat_saturatingAdd]
      · have kept := Assets.quantity_set_of_ne v.assets
          ((v.quantity id).saturatingAdd n) same
        simp only [Component.asset.injEq, same, if_false]
        simp only [amount, quantity] at kept bound ⊢
        rw [kept]
        omega
  · rename_i zero
    have : n.toNat = 0 := by
      have := UInt64.le_iff_toNat_le.mp (UInt64.not_lt.mp zero)
      simpa using this
    rw [this]
    split <;> omega

end Value

namespace Mint

theorem toNat_magnitude (q : Int64) : (magnitude q).toNat = q.toInt.natAbs := by
  have low := q.le_toInt
  have high := q.toInt_lt
  rw [magnitude, UInt64.toNat_ofNat']
  omega

theorem amount_foldl_withAsset (p : Int64 → Prop) [DecidablePred p]
    (es : List (AssetId × Int64)) (v : Value) (c : Component) :
    (es.foldl (fun v e => if p e.2 then v.withAsset e.1 (magnitude e.2) else v) v).amount c =
      min (v.amount c + (es.map (fun e =>
        if c = .asset e.1 ∧ p e.2 then e.2.toInt.natAbs else 0)).sum) (UInt64.size - 1) := by
  induction es generalizing v with
  | nil =>
    have := v.amount_le c
    simp only [List.foldl_nil, List.map_nil, List.sum_nil]
    omega
  | cons e rest ih =>
    rw [List.foldl_cons, ih, List.map_cons, List.sum_cons]
    by_cases chosen : p e.2
    · simp only [chosen, if_true, and_true, Value.amount_withAsset, toNat_magnitude]
      omega
    · simp only [chosen, if_false, and_false]
      omega

theorem sum_entries (m : Mint) (p : Int64 → Prop) [DecidablePred p] (id : AssetId) :
    (m.entries.map (fun e =>
      if Component.asset id = .asset e.1 ∧ p e.2 then e.2.toInt.natAbs else 0)).sum =
      if p (m.quantity id.policy id.name) then (m.quantity id.policy id.name).toInt.natAbs
      else 0 := by
  have nodup : (m.entries.map Prod.fst).Nodup := entries_ids_nodup
  have sums := sum_map_of_nodup nodup (i := id)
    (f := fun e => if Component.asset id = .asset e.1 ∧ p e.2 then e.2.toInt.natAbs else 0)
    (fun e ne => by simp [Ne.symm ne])
  cases found : (m.get? id.policy).bind (·.get? id.name) with
  | none =>
    have zero : m.quantity id.policy id.name = 0 := by rw [quantity, found]; rfl
    have absent : id ∉ m.entries.map Prod.fst := by
      intro mem
      obtain ⟨⟨_, q⟩, entry, rfl⟩ := List.mem_map.mp mem
      exact Option.some_ne_none q ((mem_entries_iff.mp entry).symm.trans found)
    rw [zero]
    simpa using sums.1 absent
  | some q =>
    have there : m.quantity id.policy id.name = q := by rw [quantity, found]; rfl
    have mem : (id, q) ∈ m.entries := mem_entries_iff.mpr found
    rw [there]
    simpa using sums.2 q mem

@[simp] theorem amount_minted_lovelace (m : Mint) : m.minted.amount .lovelace = 0 := by
  rw [minted, amount_foldl_withAsset (fun q => 0 < q.toInt)]
  simp

@[simp] theorem amount_burned_lovelace (m : Mint) : m.burned.amount .lovelace = 0 := by
  rw [burned, amount_foldl_withAsset (fun q => q.toInt < 0)]
  simp

theorem amount_minted_asset (m : Mint) (id : AssetId) :
    m.minted.amount (.asset id) = (m.quantity id.policy id.name).toInt.toNat := by
  have high := (m.quantity id.policy id.name).toInt_lt
  have size : UInt64.size = 18446744073709551616 := rfl
  rw [minted, amount_foldl_withAsset (fun q => 0 < q.toInt), sum_entries m (fun q => 0 < q.toInt),
    Value.amount_zero]
  split <;> omega

theorem amount_burned_asset (m : Mint) (id : AssetId) :
    m.burned.amount (.asset id) = (-(m.quantity id.policy id.name).toInt).toNat := by
  have low := (m.quantity id.policy id.name).le_toInt
  have size : UInt64.size = 18446744073709551616 := rfl
  rw [burned, amount_foldl_withAsset (fun q => q.toInt < 0), sum_entries m (fun q => q.toInt < 0),
    Value.amount_zero]
  split <;> omega

end Mint

end ConwayTx
