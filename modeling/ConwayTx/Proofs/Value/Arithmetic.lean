import ConwayTx.Proofs.Value.Pruned

namespace ConwayTx

namespace Assets

theorem exists_combine {f : UInt64 → UInt64 → Option UInt64} {es : List (AssetId × UInt64)}
    (nodup : (es.map Prod.fst).Nodup) {m : Assets}
    (each : ∀ e ∈ es, ∃ q, f (m.quantity e.1.policy e.1.name) e.2 = some q) :
    ∃ m', es.foldlM (combine f) m = some m' := by
  induction es generalizing m with
  | nil => exact ⟨m, rfl⟩
  | cons e rest ih =>
    rw [List.map_cons, List.nodup_cons] at nodup
    obtain ⟨⟨q, combined⟩, later⟩ := List.forall_mem_cons.mp each
    have step : combine f m e = some (m.set e.1.policy e.1.name q) := by
      rw [combine, combined]
      rfl
    rw [List.foldlM_cons, step]
    refine ih nodup.2 fun e' mem => ?_
    have other : e'.1 ≠ e.1 := fun same => nodup.1 (same ▸ List.mem_map_of_mem mem)
    rw [quantity_set_of_ne m q other]
    exact later e' mem

end Assets

namespace Value

variable {v w u : Value}

theorem checkedAdd_pruned (h : v.checkedAdd w = some u) : u.assets.Pruned := by
  simp only [checkedAdd, Option.bind_eq_bind, Option.bind_eq_some_iff] at h
  obtain ⟨_, _, _, _, h⟩ := h
  obtain rfl := Option.some.inj h
  exact Assets.prune_pruned _

theorem exists_checkedAdd (fits : ∀ c, v.amount c + w.amount c ≤ UInt64.size - 1) :
    ∃ u, v.checkedAdd w = some u := by
  obtain ⟨lovelace, added⟩ := UInt64.exists_checkedAdd (fits .lovelace)
  obtain ⟨assets, combined⟩ := Assets.exists_combine (f := UInt64.checkedAdd)
    w.assets.entries_nodup (m := v.assets) fun ⟨id, q⟩ mem => by
      have there : w.quantity id = q := Assets.quantity_of_mem mem
      exact UInt64.exists_checkedAdd (there ▸ fits (.asset id))
  refine ⟨⟨lovelace, assets.prune⟩, ?_⟩
  simp only [checkedAdd, Option.bind_eq_bind, Option.bind_eq_some_iff]
  exact ⟨lovelace, added, assets, combined, rfl⟩

theorem eq_iff_amount {amounts : Component → Nat} (pruned : v.assets.Pruned)
    (known : ∀ c, v.amount c = amounts c) :
    v = u ↔ u.assets.Pruned ∧ ∀ c, u.amount c = amounts c := by
  constructor
  · rintro rfl
    exact ⟨pruned, known⟩
  · rintro ⟨pruned', known'⟩
    exact eq_of_amount pruned pruned' fun c => (known c).trans (known' c).symm

theorem checkedAdd_eq_some_iff :
    v.checkedAdd w = some u ↔ u.assets.Pruned ∧ ∀ c, u.amount c = v.amount c + w.amount c := by
  constructor
  · exact fun h => ⟨checkedAdd_pruned h, amount_of_checkedAdd h⟩
  · rintro ⟨pruned, sums⟩
    obtain ⟨u', h⟩ := exists_checkedAdd fun c => sums c ▸ u.amount_le c
    rw [h]
    exact congrArg some
      ((eq_iff_amount (checkedAdd_pruned h) (amount_of_checkedAdd h)).mpr ⟨pruned, sums⟩)

theorem checkedAdd_eq_none_iff :
    v.checkedAdd w = none ↔ ∃ c, UInt64.size - 1 < v.amount c + w.amount c := by
  constructor
  · intro h
    by_contra fits
    simp only [not_exists, Nat.not_lt] at fits
    obtain ⟨u, h'⟩ := exists_checkedAdd fits
    cases h.symm.trans h'
  · rintro ⟨c, beyond⟩
    by_contra some
    obtain ⟨u, h⟩ := Option.ne_none_iff_exists'.mp some
    have := u.amount_le c
    rw [amount_of_checkedAdd h] at this
    omega

theorem exists_checkedSub_iff :
    (∃ u, v.checkedSub w = some u) ↔ ∀ c, w.amount c ≤ v.amount c := by
  rw [← covers_iff, checkedSub]
  split <;> simp [*]

theorem checkedAdd_of_checkedSub (h : v.checkedSub w = some u) :
    u.checkedAdd w = some v.prune := by
  refine checkedAdd_eq_some_iff.mpr ⟨v.assets.prune_pruned, fun c => ?_⟩
  rw [amount_prune, amount_of_checkedSub h]

/-- Sums and differences are those of the amounts, and free of zeros. The exact ones are refused
just where a sum is no word, or a difference is no number; the others stop there. The order in which
values are added up does not matter. -/
theorem arithmetic_componentwise (v w : Value) :
    (v.checkedAdd w = none ↔ ∃ c, UInt64.size - 1 < v.amount c + w.amount c) ∧
    (∀ u, v.checkedAdd w = some u ↔
      u.assets.Pruned ∧ ∀ c, u.amount c = v.amount c + w.amount c) ∧
    ((∃ u, v.checkedSub w = some u) ↔ ∀ c, w.amount c ≤ v.amount c) ∧
    (∀ u, v.checkedSub w = some u → u.checkedAdd w = some v.prune) ∧
    (∀ u, v.saturatingSub w = u ↔
      u.assets.Pruned ∧ ∀ c, u.amount c = v.amount c - w.amount c) ∧
    (∀ u, v + w = u ↔
      u.assets.Pruned ∧ ∀ c, u.amount c = min (v.amount c + w.amount c) (UInt64.size - 1)) ∧
    ∀ vs ws : List Value, vs.Perm ws → sum vs = sum ws := by
  refine ⟨checkedAdd_eq_none_iff, fun u => checkedAdd_eq_some_iff, exists_checkedSub_iff,
    fun u => checkedAdd_of_checkedSub, fun u => ?_, fun u => ?_, fun vs ws => sum_eq_of_perm⟩
  · exact eq_iff_amount (saturatingSub_pruned v w) (amount_saturatingSub v w)
  · exact eq_iff_amount (add_pruned v w) (amount_add v w)

end Value

namespace Sample

def grain : AssetId := ⟨⟨List.replicate 28 0xa2, List.length_replicate⟩, ⟨[0xcd], by decide⟩⟩

def cluttered : Value :=
  ⟨5, OrdMap.ofList [(⟨List.replicate 28 0xa1, List.length_replicate⟩, ∅),
    (grain.policy, OrdMap.ofList [(⟨[0xab], by decide⟩, 0), (grain.name, 0xffffffffffffffff)])]⟩

def speck : Value :=
  ⟨3, OrdMap.ofList [(grain.policy, OrdMap.ofList [(grain.name, 1)]),
    (⟨List.replicate 28 0xa3, List.length_replicate⟩, OrdMap.ofList [(⟨[0xab], by decide⟩, 0)])]⟩

end Sample

open Sample in
theorem Value.arithmetic_componentwise_cluttered :
    cluttered.checkedAdd speck = none ∧
    (∃ u, cluttered.checkedSub speck = some u ∧ u.checkedAdd speck = some cluttered.prune) ∧
    cluttered.prune ≠ cluttered ∧
    (cluttered + speck).lovelace = 8 ∧
    Value.sum [cluttered, speck, speck] = Value.sum [speck, cluttered, speck] := by
  obtain ⟨refused, _, _, back, _, clipped, order⟩ := arithmetic_componentwise cluttered speck
  have taken : cluttered.checkedSub speck = some (cluttered.saturatingSub speck) := by
    decide +kernel
  refine ⟨refused.mpr ⟨.asset grain, by decide +kernel⟩, ⟨_, taken, back _ taken⟩,
    by decide +kernel, ?_, order _ _ (.swap _ _ _)⟩
  exact UInt64.toNat_inj.mp (((clipped _).mp rfl).2 .lovelace)

end ConwayTx
