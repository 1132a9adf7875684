import ConwayTx.Proofs.Balance.Accepted
import ConwayTx.Proofs.Collateral
import ConwayTx.Proofs.Fee
import ConwayTx.Proofs.Selection.Fewest
/-!
When collateral is refused. Outputs are taken in one order, those without other assets first, and
what is taken is always all that comes before something. So a choice that would do is missed only
where too much is preferred to a part of it, or where assets come with that.
-/

namespace ConwayTx

theorem Utxo.total_eq_of_perm {us vs : List Utxo} (perm : us.Perm vs) : total us = total vs :=
  Value.sum_eq_of_perm (perm.map Utxo.value)

theorem perm_take_of_closed {α : Type} {before : α → α → Prop} (irrefl : ∀ a, ¬ before a a)
    {xs ys : List α} (ordered : ys.Pairwise before) (within : xs.Subperm ys)
    (closed : ∀ a ∈ xs, ∀ b ∈ ys, before b a → b ∈ xs) : xs.Perm (ys.take xs.length) := by
  have nodup : ys.Nodup := by
    refine ordered.imp ?_
    rintro a _ h rfl
    exact irrefl a h
  have parts := List.take_append_drop xs.length ys
  obtain ⟨_, _, across⟩ := List.pairwise_append.mp (parts.symm ▸ ordered)
  have size : (ys.take xs.length).length = xs.length := List.length_take_of_le within.length_le
  have inside : xs ⊆ ys.take xs.length := by
    intro a mem
    by_contra out
    -- All that is in front comes before `a`, so it would be in `xs`, and `a` is one more.
    have behind : a ∈ ys.drop xs.length :=
      (List.mem_append.mp (parts.symm ▸ within.subset mem)).resolve_left out
    have front : ys.take xs.length ⊆ xs := fun b taken =>
      closed a mem b (List.mem_of_mem_take taken) (across b taken a behind)
    have more : (a :: ys.take xs.length).Subperm xs :=
      List.subperm_of_subset (List.nodup_cons.mpr ⟨out, nodup.sublist (List.take_sublist _ _)⟩)
        (List.cons_subset.mpr ⟨mem, front⟩)
    have length := more.length_le
    rw [List.length_cons, size] at length
    omega
  obtain ⟨sub, perm, sublist⟩ := within
  have once : xs.Nodup := perm.nodup_iff.mp (nodup.sublist sublist)
  exact (List.subperm_of_subset once inside).perm_of_length_le (Nat.le_of_eq size)

theorem filter_prefix {α : Type} {before : α → α → Prop} {p : α → Bool} {xs : List α}
    (ordered : xs.Pairwise before) (earlier : ∀ a b, before a b → p b = true → p a = true) :
    xs.filter p <+: xs := by
  induction xs with
  | nil => exact List.prefix_refl _
  | cons x rest ih =>
    rw [List.pairwise_cons] at ordered
    by_cases met : p x = true
    · rw [List.filter_cons_of_pos met]
      exact List.cons_prefix_cons.mpr ⟨rfl, ih ordered.2⟩
    · have none : rest.filter p = [] :=
        List.filter_eq_nil_iff.mpr (fun y mem later => met (earlier x y (ordered.1 y mem) later))
      rw [List.filter_cons_of_neg met, none]
      exact List.nil_prefix

namespace Collateral

def Preferred (u v : Utxo) : Prop :=
  u.value.hasAssets < v.value.hasAssets ∨ u.value.hasAssets = v.value.hasAssets ∧
    (v.value.lovelace < u.value.lovelace ∨ v.value.lovelace = u.value.lovelace ∧
      Ranked.Precedes u.ref v.ref)

theorem precedes_order_iff {u v : Utxo} :
    Ranked.Precedes (order u) (order v) ↔ Preferred u v := by
  rw [order, order, Ranked.precedes_cons_iff, Utxo.lack_precedes_iff, Preferred,
    UInt64.lt_iff_toNat_lt, ← UInt64.toNat_inj]
  cases u.value.hasAssets <;> cases v.value.hasAssets <;> simp

theorem Preferred.irrefl (u : Utxo) : ¬ Preferred u u :=
  fun h => Ranked.Precedes.irrefl _ (precedes_order_iff.mpr h)

theorem Preferred.asymm {u v : Utxo} (h : Preferred u v) : ¬ Preferred v u :=
  fun k => Ranked.Precedes.asymm (precedes_order_iff.mpr h) (precedes_order_iff.mpr k)

theorem Preferred.hasAssets_le {u v : Utxo} (h : Preferred u v) :
    u.value.hasAssets ≤ v.value.hasAssets := by
  rcases h with less | ⟨same, _⟩
  · exact Bool.le_of_lt less
  · exact Bool.le_of_eq same

theorem Preferred.amount_le {u v : Utxo} (h : Preferred u v)
    (same : u.value.hasAssets = v.value.hasAssets) :
    v.value.amount .lovelace ≤ u.value.amount .lovelace := by
  rcases h with less | ⟨_, less | ⟨equal, _⟩⟩
  · exact absurd (same ▸ less) (Bool.lt_irrefl _)
  · exact Nat.le_of_lt (UInt64.lt_iff_toNat_lt.mp less)
  · exact Nat.le_of_eq (congrArg UInt64.toNat equal)

structure Acceptable (coinsPerByte : UInt64) (address : Address) (required : UInt64)
    (us : List Utxo) : Prop where
  fits : ∀ c, Utxo.held us c < UInt64.size
  rest : ∃ rest : Value, rest.assets.Pruned ∧
    (∀ c, Utxo.held us c = (Value.ofLovelace required).amount c + rest.amount c) ∧
    (rest.isZero = true ∨ rest.hasAssets = false ∨
      Fee.requiredLovelace coinsPerByte { address := address, value := rest } ≤ rest.lovelace)

structure Closed (pools : Pools) (us : List Utxo) : Prop where
  within : us.Subperm pools.pledgeable
  closed : ∀ u ∈ us, ∀ v ∈ pools.pledgeable, Preferred v u → v ∈ us

theorem Closed.all (pools : Pools) : Closed pools pools.pledgeable :=
  ⟨List.Subperm.refl _, fun _ _ _ mem _ => mem⟩

/-- No more outputs of the pool than the limit, and nothing is in the way of them: they hold no
other assets, or else they are still within the limit with all that is preferred to them, which
adds no other assets. -/
structure InReach (pools : Pools) (limit : Nat) (us : List Utxo) : Prop where
  within : us.Subperm pools.pledgeable
  ne_nil : us ≠ []
  length_le : us.length ≤ limit
  reach : (∀ u ∈ us, u.value.hasAssets = false) ∨
    ∃ whole, Closed pools whole ∧ whole.length ≤ limit ∧ us ⊆ whole ∧
      ∀ v ∈ whole, v ∈ us ∨ v.value.hasAssets = false

section Split

variable {coinsPerByte : UInt64} {address : Address} {required : UInt64} {value rest : Value}
  {us whole : List Utxo}

theorem isSome_split? (pruned : rest.assets.Pruned)
    (assets : ∀ id, value.amount (.asset id) = rest.amount (.asset id))
    (reached : required.toNat + rest.lovelace.toNat ≤ value.lovelace.toNat)
    (enough : rest.isZero = true ∨ rest.hasAssets = false ∨
      Fee.requiredLovelace coinsPerByte { address := address, value := rest } ≤ rest.lovelace) :
    (split? coinsPerByte address required value).isSome = true := by
  have covered : ¬ value.lovelace < required := by
    rw [UInt64.lt_iff_toNat_lt]
    omega
  obtain ⟨left, left_eq⟩ : ∃ left, value.saturatingSub (Value.ofLovelace required) = left :=
    ⟨_, rfl⟩
  have amounts (c : Component) :
      left.amount c = value.amount c - (Value.ofLovelace required).amount c := by
    rw [← left_eq, Value.amount_saturatingSub]
  have lovelace : left.lovelace.toNat = value.lovelace.toNat - required.toNat := amounts .lovelace
  -- What is left is the rest with other lovelace, so an output of it needs as much.
  have same : left = { rest with lovelace := left.lovelace } := by
    refine Value.eq_of_amount (left_eq ▸ value.saturatingSub_pruned _) pruned (fun c => ?_)
    cases c with
    | lovelace => rfl
    | asset id =>
      rw [amounts, assets, Value.amount_ofLovelace_asset]
      rfl
  have least : Fee.requiredLovelace coinsPerByte { address := address, value := left } =
      Fee.requiredLovelace coinsPerByte { address := address, value := rest } := by
    rw [same]
    exact Fee.requiredLovelace_withLovelace _ { address := address, value := rest } _
  have bare : left.hasAssets = rest.hasAssets := by
    rw [same]
    rfl
  simp only [split?, covered, if_false, left_eq]
  split
  · rfl
  split
  · rfl
  rename_i short
  have none : left.hasAssets = false := by
    rw [bare]
    rcases enough with zero | bare | enough
    · rw [Value.isZero, Bool.and_eq_true, Bool.not_eq_true'] at zero
      exact zero.2
    · exact bare
    · refine absurd ?_ short
      rw [least]
      refine UInt64.le_trans enough (UInt64.le_iff_toNat_le.mpr ?_)
      omega
  rw [none]
  rfl

theorem Acceptable.isSome_split? (acceptable : Acceptable coinsPerByte address required us)
    {bare : List Utxo} (perm : whole.Perm (us ++ bare))
    (no_assets : ∀ u ∈ bare, u.value.hasAssets = false) :
    (split? coinsPerByte address required (Utxo.total whole)).isSome = true := by
  obtain ⟨rest, pruned, amounts, enough⟩ := acceptable.rest
  have fits := acceptable.fits
  have whole_eq (c : Component) : (Utxo.total whole).amount c =
      min (Utxo.held us c + Utxo.held bare c) (UInt64.size - 1) := by
    rw [← Utxo.held_append, ← Utxo.held_perm perm]
    exact Utxo.amount_total whole c
  refine Collateral.isSome_split? pruned (fun id => ?_) ?_ enough
  · have nothing : Utxo.held bare (.asset id) = 0 := Utxo.held_eq_zero (fun u mem =>
      Value.amount_asset_of_not_hasAssets (no_assets u mem) id)
    have fits := fits (.asset id)
    have amount := amounts (.asset id)
    rw [Value.amount_ofLovelace_asset] at amount
    rw [whole_eq]
    omega
  · have fits := fits .lovelace
    have amount := amounts .lovelace
    have whole_eq := whole_eq .lovelace
    rw [Value.amount_ofLovelace_lovelace] at amount
    change _ + rest.amount .lovelace ≤ (Utxo.total whole).amount .lovelace
    omega

theorem isSome_split?_of_bare (no_assets : ∀ u ∈ us, u.value.hasAssets = false)
    (reached : required.toNat ≤ Utxo.held us .lovelace) :
    (split? coinsPerByte address required (Utxo.total us)).isSome = true := by
  have fits := required.toNat_lt_size
  have pruned : Value.zero.assets.Pruned := Value.sum_pruned []
  refine isSome_split? pruned (fun id => ?_) ?_ (.inl rfl)
  · have nothing : Utxo.held us (.asset id) = 0 := Utxo.held_eq_zero (fun u mem =>
      Value.amount_asset_of_not_hasAssets (no_assets u mem) id)
    have total : (Utxo.total us).amount (.asset id) = min (Utxo.held us (.asset id)) _ :=
      Utxo.amount_total us (.asset id)
    rw [total, nothing, Value.amount_zero, Nat.zero_min]
  · have total : (Utxo.total us).amount .lovelace = min (Utxo.held us .lovelace) _ :=
      Utxo.amount_total us .lovelace
    change _ + 0 ≤ (Utxo.total us).amount .lovelace
    omega

theorem acceptable_of_split {forfeited : UInt64} {change : Option TxOut}
    (fits : ∀ c, Utxo.held us c < UInt64.size)
    (split : Split coinsPerByte address required (Utxo.total us) forfeited change) :
    Acceptable coinsPerByte address required us := by
  have total (c : Component) : (Utxo.total us).amount c = Utxo.held us c :=
    (Utxo.amount_total us c).trans (Nat.min_eq_left (Nat.le_sub_one_of_lt (fits c)))
  have reached : required ≤ (Utxo.total us).lovelace := by
    have lovelace := split.amount .lovelace
    change (Utxo.total us).lovelace.toNat = forfeited.toNat + _ at lovelace
    have le := UInt64.le_iff_toNat_le.mp split.required_le
    rw [UInt64.le_iff_toNat_le]
    omega
  have amounts := Value.amount_eq_add_rest reached
  refine ⟨fits, _, Value.saturatingSub_pruned _ _, fun c => total c ▸ amounts c, ?_⟩
  cases change with
  | some o =>
    have enough := split.enough o rfl
    rw [split.change_eq o rfl, split.left o rfl] at enough
    exact .inr (.inr enough)
  | none =>
    refine .inr (.inl (Bool.eq_false_iff.mpr fun assets => ?_))
    obtain ⟨id, positive⟩ := Value.hasAssets_iff.mp assets
    have held := split.amount (.asset id)
    rw [amounts, Value.amount_ofLovelace_asset, Value.amount_ofLovelace_asset] at held
    change _ = 0 + 0 at held
    omega

end Split

section Scan

variable {pools : Pools} {pool us : List Utxo} {c : Collateral}

theorem gather_eq_none {split : Value → Option (UInt64 × Option TxOut)} {taken : List Utxo}
    (h : gather split taken (Utxo.total taken) us = none) :
    ∀ front, front <+: us → front ≠ [] → split (Utxo.total (taken ++ front)) = none := by
  induction us generalizing taken with
  | nil => exact fun front within some => absurd (List.prefix_nil.mp within) some
  | cons u rest ih =>
    rw [gather, ← Utxo.total_concat] at h
    split at h
    · cases h
    · rename_i refused
      intro front within some
      cases front with
      | nil => exact absurd rfl some
      | cons v more =>
        obtain ⟨rfl, later⟩ := List.cons_prefix_cons.mp within
        cases more with
        | nil => exact refused
        | cons w more =>
          have refused := ih h (w :: more) later (List.cons_ne_nil _ _)
          rwa [List.append_assoc, List.singleton_append] at refused

variable (offered : pools.collateral = some pool) (distinct : (pool.map Utxo.ref).Nodup)

include offered in
theorem candidates_perm : (candidates pool).Perm pools.pledgeable := by
  rw [Pools.pledgeable, offered]
  exact List.mergeSort_perm _ _

include distinct

theorem candidates_ordered : (candidates pool).Pairwise Preferred := by
  rw [candidates_eq_sortOn]
  have perm := Ranked.sortOn_perm order (pool.filter (fun u => !u.output.address.isScript))
  have once := (perm.map Utxo.ref).nodup_iff.mpr
    (distinct.sublist (List.filter_sublist.map Utxo.ref))
  have nodup : ((Ranked.sortOn order (pool.filter (fun u => !u.output.address.isScript))).map
      order).Nodup := by
    rw [List.Nodup, List.pairwise_map] at once ⊢
    exact once.imp (fun apart same => apart (Utxo.ref_eq_of_lack_eq (List.cons.inj same).2))
  exact (List.pairwise_map.mp (Ranked.strict_of_sorted nodup (Ranked.sortOn_sorted _ _))).imp
    precedes_order_iff.mp

include offered

theorem Closed.perm_take (closed : Closed pools us) :
    us.Perm ((candidates pool).take us.length) := by
  have perm := candidates_perm offered
  exact perm_take_of_closed Preferred.irrefl (candidates_ordered distinct)
    (closed.within.trans perm.symm.subperm)
    (fun u mem v there => closed.closed u mem v (perm.mem_iff.mp there))

theorem closed_of_prefix (front : us <+: candidates pool) : Closed pools us := by
  have perm := candidates_perm offered
  refine ⟨front.sublist.subperm.trans perm.subperm, fun u mem v there preferred => ?_⟩
  obtain ⟨rest, whole⟩ := front
  have ordered := candidates_ordered distinct
  rw [← whole] at ordered perm
  rcases List.mem_append.mp (perm.mem_iff.mpr there) with taken | later
  · exact taken
  · exact absurd preferred ((List.pairwise_append.mp ordered).2.2 u mem v later).asymm

theorem exists_bare_front (within : us.Subperm pools.pledgeable)
    (no_assets : ∀ u ∈ us, u.value.hasAssets = false) :
    ∃ front, front <+: candidates pool ∧ front.length = us.length ∧
      (∀ u ∈ front, u.value.hasAssets = false) ∧
      Utxo.held us .lovelace ≤ Utxo.held front .lovelace := by
  have ordered := candidates_ordered distinct
  let bare (u : Utxo) : Bool := !u.value.hasAssets
  have first : (candidates pool).filter bare <+: candidates pool := by
    refine filter_prefix ordered (fun u v preferred later => ?_)
    have le := preferred.hasAssets_le
    simp only [bare, Bool.not_eq_true'] at later ⊢
    exact Bool.eq_false_of_le_false (later ▸ le)
  have bares : ∀ u ∈ (candidates pool).filter bare, u.value.hasAssets = false := fun u mem => by
    simpa [bare] using List.of_mem_filter mem
  have taken : us.Subperm ((candidates pool).filter bare) := by
    obtain ⟨listed, perm, sublist⟩ := within.trans (candidates_perm offered).symm.subperm
    have all : listed.filter bare = listed :=
      List.filter_eq_self.mpr (fun u mem => by simp [bare, no_assets u (perm.subset mem)])
    exact ⟨listed, perm, all ▸ sublist.filter bare⟩
  have descending : ((candidates pool).filter bare).Pairwise
      (fun u v => v.value.amount .lovelace ≤ u.value.amount .lovelace) := by
    refine (ordered.sublist List.filter_sublist).imp_of_mem (fun here there preferred => ?_)
    exact preferred.amount_le ((bares _ here).trans (bares _ there).symm)
  generalize (candidates pool).filter bare = firsts at first bares taken descending
  have size : (firsts.take us.length).length = us.length := List.length_take_of_le taken.length_le
  refine ⟨firsts.take us.length, (List.take_prefix _ _).trans first, size,
    fun u mem => bares u (List.mem_of_mem_take mem), ?_⟩
  have parts := List.take_append_drop us.length firsts
  obtain ⟨front, _, across⟩ := List.pairwise_append.mp (parts.symm ▸ descending)
  exact Utxo.held_le_front front across (parts.symm ▸ taken) (Nat.le_of_eq size.symm)

theorem nodup_of_within (within : us.Subperm pools.pledgeable) : us.Nodup := by
  obtain ⟨_, perm, sublist⟩ := within
  rw [Pools.pledgeable, offered] at sublist
  have once : pool.Nodup := List.Nodup.of_map Utxo.ref distinct
  exact perm.nodup_iff.mp ((once.filter _).sublist sublist)

theorem InReach.exists_front {limit : Nat} (reach : InReach pools limit us)
    {coinsPerByte : UInt64} {address : Address} {required : UInt64}
    (acceptable : Acceptable coinsPerByte address required us) :
    ∃ front, front <+: (candidates pool).take limit ∧ front ≠ [] ∧
      (split? coinsPerByte address required (Utxo.total front)).isSome = true := by
  rcases reach.reach with no_assets | ⟨whole, closed, length_le, inside, others⟩
  · obtain ⟨front, first, size, bares, more⟩ :=
      exists_bare_front offered distinct reach.within no_assets
    refine ⟨front, List.prefix_take_iff.mpr ⟨first, size ▸ reach.length_le⟩, ?_, ?_⟩
    · exact List.ne_nil_of_length_pos (size ▸ List.length_pos_of_ne_nil reach.ne_nil)
    · obtain ⟨rest, _, amounts, _⟩ := acceptable.rest
      have amount := amounts .lovelace
      rw [Value.amount_ofLovelace_lovelace] at amount
      exact isSome_split?_of_bare bares (by omega)
  · have perm := closed.perm_take offered distinct
    have once := nodup_of_within offered distinct reach.within
    have whole_once := nodup_of_within offered distinct closed.within
    obtain ⟨listed, same, sublist⟩ := List.subperm_of_subset once inside
    obtain ⟨extra, listing⟩ := sublist.exists_perm_append
    have parts : whole.Perm (us ++ extra) := listing.trans (same.append_right extra)
    have apart := List.disjoint_of_nodup_append (parts.nodup_iff.mp whole_once)
    have bare : ∀ v ∈ extra, v.value.hasAssets = false := fun v mem =>
      (others v (parts.mem_iff.mpr (List.mem_append_right us mem))).resolve_left
        (fun twice => apart twice mem)
    refine ⟨(candidates pool).take whole.length, List.take_prefix_take_left length_le, ?_, ?_⟩
    · intro none
      rw [none, List.perm_nil] at perm
      exact reach.ne_nil (List.subset_nil.mp (perm ▸ inside))
    · rw [← Utxo.total_eq_of_perm perm]
      exact acceptable.isSome_split? parts bare

end Scan

section Select

variable {p : Params} {cfg : Config} {d : Draft} {pools : Pools} {fee : UInt64} {pool : List Utxo}
  {address : Address}

theorem Selected.inReach {c : Collateral} (selected : Selected p cfg d pools fee c)
    (distinct : (selected.pool.map Utxo.ref).Nodup) :
    InReach pools p.maxCollateralInputs.toNat c.inputs := by
  obtain ⟨first, length_le⟩ := List.prefix_take_iff.mp selected.front
  have closed := closed_of_prefix selected.offered distinct first
  refine ⟨closed.within, selected.inputs_ne, length_le, .inr ⟨c.inputs, closed, length_le, ?_⟩⟩
  exact ⟨List.Subset.refl _, fun v mem => .inl mem⟩

variable (offered : pools.collateral = some pool)
  (returned : d.collateralChangeAddress = some address)

include offered returned

theorem select_fails : (select p cfg d pools fee).FailsWith (fun e =>
    Collateral.required p cfg fee = .error .overflow ∧ e = .overflow ∨
      ∃ required, Collateral.required p cfg fee = .ok required ∧ e = .collateralShort required ∧
        gather (split? p.coinsPerUtxoByte address required) [] Value.zero
          ((candidates pool).take p.maxCollateralInputs.toNat) = none) := by
  simp only [select, offered, returned]
  refine Except.FailsWith.bind (fun e beyond => .inl ?_) (fun required amount => ?_)
  · unfold Collateral.required at beyond ⊢
    split at beyond <;> cases beyond
    exact ⟨rfl, rfl⟩
  · split
    · exact .ok _ _
    · rename_i none
      exact .error (.inr ⟨required, amount, rfl, none⟩)

/-- Collateral is refused for want of it only where no choice in reach would do. Where it is not
refused, one that would do is taken, as long as the amounts of the pool fit words. -/
theorem refused_only_short (distinct : (pool.map Utxo.ref).Nodup) :
    (∀ e, select p cfg d pools fee = .error e → e.kind = .balance →
      ∃ required, Collateral.required p cfg fee = .ok required ∧
        ∀ us, InReach pools p.maxCollateralInputs.toNat us →
          ¬ Acceptable p.coinsPerUtxoByte address required us) ∧
    (∀ required, Collateral.required p cfg fee = .ok required →
      select p cfg d pools fee = .error (.collateralShort required) ∨
        ∃ c, select p cfg d pools fee = .ok c ∧
          ((∀ k, Utxo.held pools.pledgeable k < UInt64.size) →
            InReach pools p.maxCollateralInputs.toNat c.inputs ∧
              Acceptable p.coinsPerUtxoByte address required c.inputs)) := by
  have fails : (select p cfg d pools fee).FailsWith _ := select_fails offered returned
  constructor
  · intro e refused kind
    obtain ⟨_, rfl⟩ | ⟨required, amount, _, none⟩ := fails e refused
    · cases kind
    · refine ⟨required, amount, fun us reach acceptable => ?_⟩
      obtain ⟨front, within, some, found⟩ := reach.exists_front offered distinct acceptable
      rw [← List.nil_append front, gather_eq_none none front within some] at found
      cases found
  · intro required amount
    cases chosen : select p cfg d pools fee with
    | error e =>
      obtain ⟨beyond, _⟩ | ⟨_, same, rfl, _⟩ := fails e chosen
      · cases amount.symm.trans beyond
      · cases amount.symm.trans same
        exact .inl rfl
    | ok c =>
      obtain ⟨selected⟩ := select_ok chosen
      obtain rfl := Option.some.inj (offered.symm.trans selected.offered)
      obtain rfl := Option.some.inj (returned.symm.trans selected.returned)
      obtain rfl := Except.ok.inj (amount.symm.trans selected.required_eq)
      refine .inr ⟨c, rfl, fun fits => ⟨selected.inReach distinct, ?_⟩⟩
      refine acceptable_of_split (fun k => ?_) selected.split
      exact Nat.lt_of_le_of_lt (Utxo.held_le_of_subperm selected.inputs_subperm k) (fits k)

end Select

end Collateral

namespace Sample

def refunding : Draft := { collateralChangeAddress := some (keyAddress 3) }

def dust : List Utxo :=
  [utxo 1 (keyAddress 1) (.ofLovelace 50000), utxo 2 (keyAddress 1) (.ofLovelace 50000),
    utxo 3 (keyAddress 1) (.ofLovelace 50000)]

def chest : Utxo := utxo 4 (keyAddress 1) (tickets 100000000 1)

def crowded : Pools := { collateral := some (chest :: dust) }

def light : Utxo := utxo 2 (keyAddress 1) (tickets 1400000 1)

def heavy : Utxo :=
  let names : List UInt8 := [1, 2, 3, 4, 5, 6, 7, 8, 9, 10, 11, 12]
  utxo 1 (keyAddress 1) (names.foldl (fun v b =>
    v.withAsset ⟨hash 2, List.replicate 32 b, by simp⟩ 1) (.ofLovelace 1500000))

def burdened : Pools := { collateral := some [light, heavy] }

theorem chest_taken : (Collateral.select setup.params setup.config refunding
    { collateral := some [chest] } 170000).satisfies (fun c => c.total == 255000) = true := by
  cbv

theorem crowded_refused : Collateral.select setup.params setup.config refunding crowded 170000 =
    .error (.collateralShort 255000) := by
  cbv

set_option maxRecDepth 10000 in
theorem burdened_refused : Collateral.select setup.params setup.config refunding burdened 170000 =
    .error (.collateralShort 255000) := by
  cbv

end Sample

namespace Collateral

open Sample

theorem held_single_lt (u : Utxo) (c : Component) : Utxo.held [u] c < UInt64.size := by
  rw [Utxo.held, List.map_singleton, List.sum_singleton]
  exact Nat.lt_of_le_pred (by decide) (u.value.amount_le c)

theorem acceptable_single {coinsPerByte : UInt64} {address : Address} {required : UInt64}
    {u : Utxo} (h : (split? coinsPerByte address required (Utxo.total [u])).isSome = true) :
    Acceptable coinsPerByte address required [u] := by
  obtain ⟨parts, found⟩ := Option.isSome_iff_exists.mp h
  exact acceptable_of_split (held_single_lt u) (split?_ok found)

theorem refused_though_acceptable :
    (((chest :: dust).map Utxo.ref).Nodup ∧ [chest].Subperm crowded.pledgeable ∧
      required setup.params setup.config 170000 = .ok 255000 ∧
      Acceptable setup.params.coinsPerUtxoByte (keyAddress 3) 255000 [chest] ∧
      select setup.params setup.config refunding crowded 170000 =
        .error (.collateralShort 255000)) ∧
    (([light, heavy].map Utxo.ref).Nodup ∧ [light].Subperm burdened.pledgeable ∧
      Acceptable setup.params.coinsPerUtxoByte (keyAddress 3) 255000 [light] ∧
      select setup.params setup.config refunding burdened 170000 =
        .error (.collateralShort 255000)) ∧
    required setup.params setup.config 0 = .ok 0 ∧
      Acceptable setup.params.coinsPerUtxoByte (keyAddress 3) 0 [] ∧
      select setup.params setup.config refunding { collateral := some [] } 0 =
        .error (.collateralShort 0) := by
  have chest_enough : (split? 4310 (keyAddress 3) 255000 (Utxo.total [chest])).isSome = true := by
    cbv
  have light_enough : (split? 4310 (keyAddress 3) 255000 (Utxo.total [light])).isSome = true := by
    cbv
  have nothing : Acceptable setup.params.coinsPerUtxoByte (keyAddress 3) 0 [] :=
    acceptable_of_split (fun c => Nat.zero_lt_succ _) (split?_ok rfl)
  refine ⟨⟨by decide, ?_, rfl, acceptable_single chest_enough, crowded_refused⟩,
    ⟨by decide, ?_, acceptable_single light_enough, burdened_refused⟩, rfl, nothing, by cbv⟩
  · exact List.singleton_subperm_iff.mpr List.mem_cons_self
  · exact List.singleton_subperm_iff.mpr List.mem_cons_self

theorem refused_only_short_crowded :
    (∀ us, us.Subperm crowded.pledgeable → us ≠ [] → us.length ≤ 3 →
      (∀ u ∈ us, u.value.hasAssets = false) →
        ¬ Acceptable setup.params.coinsPerUtxoByte (keyAddress 3) 255000 us) ∧
    ¬ Acceptable setup.params.coinsPerUtxoByte (keyAddress 3) 255000 burdened.pledgeable ∧
    ∃ c, select setup.params setup.config refunding { collateral := some [chest] } 170000 = .ok c ∧
      c.inputs ≠ [] ∧ Acceptable setup.params.coinsPerUtxoByte (keyAddress 3) 255000 c.inputs := by
  refine ⟨?_, ?_, ?_⟩
  · obtain ⟨refused, _⟩ := @refused_only_short setup.params setup.config refunding crowded 170000
      _ _ rfl rfl (by decide)
    obtain ⟨required, amount, none⟩ := refused _ crowded_refused rfl
    cases amount
    exact fun us within ne_nil length_le bare => none us ⟨within, ne_nil, length_le, .inl bare⟩
  · obtain ⟨refused, _⟩ := @refused_only_short setup.params setup.config refunding burdened 170000
      _ _ rfl rfl (by decide)
    obtain ⟨required, amount, none⟩ := refused _ burdened_refused rfl
    cases amount
    refine none _ ⟨List.Subperm.refl _, by decide, by decide, .inr ⟨_, .all _, by decide, ?_⟩⟩
    exact ⟨List.Subset.refl _, fun v mem => .inl mem⟩
  · obtain ⟨c, taken, _⟩ := Except.satisfies_iff.mp chest_taken
    obtain ⟨_, found⟩ := @refused_only_short setup.params setup.config refunding
      { collateral := some [chest] } 170000 _ _ rfl rfl (by decide)
    rcases found 255000 rfl with refused | ⟨_, same, acceptable⟩
    · cases taken.symm.trans refused
    · cases taken.symm.trans same
      obtain ⟨reach, enough⟩ := acceptable (held_single_lt chest)
      exact ⟨c, taken, reach.ne_nil, enough⟩

end Collateral

end ConwayTx
