import ConwayTx.Proofs.Balance.FeeCoverage
import ConwayTx.Proofs.Selection.Coverage
import Mathlib.Algebra.BigOperators.Group.Finset.Basic
import Mathlib.Algebra.Group.Action.Defs
import Mathlib.Algebra.Order.BigOperators.Group.Finset

namespace ConwayTx

section Sums

variable {α : Type}

theorem sum_keys_eq_iff [DecidableEq α] {keys listed : List α} (distinct : keys.Nodup)
    (same : ∀ a, a ∈ keys ↔ a ∈ listed) (f : α → Nat) :
    (keys.map f).sum = (listed.map f).sum ↔ ∀ a ∈ keys, f a = 0 ∨ listed.count a = 1 := by
  have members : listed.toFinset = keys.toFinset := by
    ext a
    simp [same]
  have counted : ∀ a ∈ keys, 0 < listed.count a := fun a mem =>
    List.count_pos_iff.mpr ((same a).mp mem)
  rw [Finset.sum_list_map_count listed, members, ← List.sum_toFinset f distinct,
    Finset.sum_eq_sum_iff_of_le]
  · simp only [List.mem_toFinset, smul_eq_mul]
    refine forall₂_congr (fun a mem => ⟨fun h => ?_, ?_⟩)
    · by_cases zero : f a = 0
      · exact .inl zero
      · refine .inr (Nat.eq_of_mul_eq_mul_right (Nat.pos_of_ne_zero zero) ?_)
        rw [Nat.one_mul]
        exact h.symm
    · rintro (zero | one)
      · rw [zero, Nat.mul_zero]
      · rw [one, Nat.one_mul]
  · intro a mem
    exact Nat.le_mul_of_pos_left _ (counted a (List.mem_toFinset.mp mem))

theorem sum_filterMap {β : Type} (f : α → Option β) (g : β → Nat) (xs : List α) :
    ((xs.filterMap f).map g).sum = (xs.map (fun x => ((f x).map g).getD 0)).sum := by
  induction xs with
  | nil => rfl
  | cons x rest ih =>
    rw [List.filterMap_cons, List.map_cons, List.sum_cons, ← ih]
    cases f x <;> simp

end Sums

def Tx.declared (tx : Tx) (c : Component) : Nat :=
  (tx.body.totalCollateral.toList.map (fun n => (Value.ofLovelace n).amount c)).sum +
    (tx.body.collateralReturn.toList.map (fun o => o.value.amount c)).sum

namespace Pools

variable (pools : Pools)

def pledge (r : OutRef) : Option Utxo := pools.pledgeable.find? (·.ref == r)

def pledged (tx : Tx) : List Utxo := tx.body.collateral.keys.filterMap pools.pledge

def worth (c : Component) (r : OutRef) : Nat :=
  ((pools.pledge r).map (fun u => u.value.amount c)).getD 0

/-- No two outputs of the pool have the same reference, though one may be listed repeatedly. -/
def Unambiguous : Prop :=
  ∀ u ∈ pools.pledgeable, ∀ v ∈ pools.pledgeable, u.ref = v.ref → u = v

variable {pools}

theorem amount_pledged (tx : Tx) (c : Component) :
    ((pools.pledged tx).map (fun u => u.value.amount c)).sum =
      (tx.body.collateral.keys.map (pools.worth c)).sum :=
  sum_filterMap _ _ _

theorem pledge_ref {r : OutRef} {u : Utxo} (h : pools.pledge r = some u) : u.ref = r := by
  simpa using List.find?_some h

theorem Unambiguous.pledge_of_mem (unique : pools.Unambiguous) {u : Utxo}
    (mem : u ∈ pools.pledgeable) : pools.pledge u.ref = some u := by
  obtain ⟨v, found⟩ : ∃ v, pools.pledge u.ref = some v := by
    rw [← Option.isSome_iff_exists, pledge, List.find?_isSome]
    exact ⟨u, mem, by simp⟩
  rw [found, unique v (List.mem_of_find?_eq_some found) u mem (pledge_ref found)]

end Pools

namespace Balance

variable {s : Setup} {d : Draft} {pools : Pools} {plan : Plan} {state : State} {tx : Tx}

namespace Accepted

variable (a : Accepted s d pools plan state tx)
include a

theorem tx_collateralReturn :
    tx.body.collateralReturn = a.parts.collateral.bind Collateral.change :=
  a.of_body (fun _ => rfl)

theorem tx_totalCollateral :
    tx.body.totalCollateral = a.parts.collateral.map Collateral.total :=
  a.of_body (fun _ => rfl)

theorem isSome_collateral : a.parts.collateral.isSome = !tx.witnesses.redeemers.isEmpty := by
  rw [a.prepared.isSome_collateral, a.tx_redeemers, Resolution.needsCollateral]

theorem selected {c : Collateral} (h : a.parts.collateral = some c) :
    Nonempty (Collateral.Selected s.params s.config d pools tx.body.fee c) := by
  rw [a.tx_fee]
  exact Collateral.select_ok (a.prepared.secured c h)

theorem declared_eq (fits : ∀ c, (pools.pledgeable.map (fun u => u.value.amount c)).sum ≤
    UInt64.size - 1) (c : Component) :
    tx.declared c = (a.collateral.map (fun u => u.value.amount c)).sum := by
  rw [Tx.declared, a.tx_totalCollateral, a.tx_collateralReturn, Accepted.collateral]
  cases found : a.parts.collateral with
  | none => rfl
  | some chosen =>
    obtain ⟨selected⟩ := a.selected found
    have taken : (chosen.inputs.map (fun u => u.value.amount c)).sum ≤ _ :=
      Utxo.held_le_of_subperm selected.inputs_subperm c
    have total := selected.split.amount c
    rw [Utxo.amount_total, Nat.min_eq_left (taken.trans (fits c))] at total
    simp [total]

theorem collateral_eq {c : Collateral} (h : a.parts.collateral = some c) :
    a.collateral = c.inputs := by
  simp [Accepted.collateral, h]

theorem mem_collateral_keys {r : OutRef} :
    r ∈ tx.body.collateral.keys ↔ r ∈ a.collateral.map Utxo.ref := by
  rw [a.tx_collateral, OrdSet.mem_keys_ofList]

theorem amount_collateral (unique : pools.Unambiguous) (c : Component) :
    (a.collateral.map (fun u => u.value.amount c)).sum =
      ((a.collateral.map Utxo.ref).map (pools.worth c)).sum := by
  rw [List.map_map]
  congr 1
  apply List.map_congr_left
  intro u mem
  simp [Pools.worth, unique.pledge_of_mem (a.collateral_pledgeable.subset mem)]

theorem amount_pledged_eq_iff (unique : pools.Unambiguous) :
    (∀ c, ((pools.pledged tx).map (fun u => u.value.amount c)).sum =
        (a.collateral.map (fun u => u.value.amount c)).sum) ↔
      ∀ u ∈ pools.pledged tx, u.value.isZero = false →
        (a.collateral.map Utxo.ref).count u.ref = 1 := by
  have counts := fun c => sum_keys_eq_iff (OrdMap.keys_nodup tx.body.collateral)
    (fun _ => a.mem_collateral_keys) (pools.worth c)
  simp only [Pools.amount_pledged, a.amount_collateral unique, counts]
  constructor
  · intro once u mem worth
    obtain ⟨r, key, named⟩ := List.mem_filterMap.mp mem
    obtain rfl := Pools.pledge_ref named
    by_contra twice
    have nothing : u.value.isZero = true := by
      refine Value.isZero_iff.mpr (fun c => ?_)
      simpa [Pools.worth, named] using (once c u.ref key).resolve_right twice
    simp [worth] at nothing
  · intro once c r key
    obtain ⟨u, taken, rfl⟩ := List.mem_map.mp (a.mem_collateral_keys.mp key)
    have named := unique.pledge_of_mem (a.collateral_pledgeable.subset taken)
    cases zero : u.value.isZero with
    | true =>
      refine .inl ?_
      simp [Pools.worth, named, Value.isZero_iff.mp zero c]
    | false => exact .inr (once u (List.mem_filterMap.mpr ⟨_, key, named⟩) zero)

end Accepted

/-- Nothing is at stake where nothing runs. Else collateral is taken from the outputs of the pool
that no script guards, no more than the parameters allow, and what is forfeited covers the share of
the fee that is paid, and the margin; what comes back holds its least lovelace. -/
theorem collateral_covers (h : balance s d pools = .ok tx) :
    (tx.witnesses.redeemers = [] →
      tx.body.collateral = ∅ ∧ tx.body.collateralReturn = none ∧
        tx.body.totalCollateral = none) ∧
    (tx.witnesses.redeemers ≠ [] →
      1 ≤ tx.body.collateral.size ∧
      tx.body.collateral.size ≤ s.params.maxCollateralInputs.toNat ∧
      (∀ r ∈ tx.body.collateral.keys, ∃ u ∈ pools.pledgeable, u.ref = r) ∧
      (∃ total, tx.body.totalCollateral = some total ∧
        (Fee.collateral s.params tx.body.fee).toNat + s.config.collateralMargin.toNat ≤
          total.toNat) ∧
      ∀ o, tx.body.collateralReturn = some o →
        d.collateralChangeAddress = some o.address ∧ o.datum = none ∧ o.scriptRef = none ∧
          Fee.requiredLovelace s.params.coinsPerUtxoByte o ≤ o.value.lovelace) := by
  obtain ⟨plan, state, _, ⟨a⟩⟩ := balance_ok h
  have runs := a.isSome_collateral
  constructor
  · intro none_run
    have absent : a.parts.collateral = none := by
      rwa [none_run, List.isEmpty_nil, Bool.not_true, Option.isSome_eq_false_iff,
        Option.isNone_iff_eq_none] at runs
    rw [a.tx_collateral, a.tx_collateralReturn, a.tx_totalCollateral, Accepted.collateral, absent]
    exact ⟨rfl, rfl, rfl⟩
  · intro some_run
    obtain ⟨c, found⟩ : ∃ c, a.parts.collateral = some c := by
      rw [← Option.isSome_iff_exists, runs]
      simpa using some_run
    obtain ⟨selected⟩ := a.selected found
    have taken := a.collateral_eq found
    refine ⟨?_, ?_, ?_, ⟨c.total, ?_, ?_⟩, ?_⟩
    · obtain ⟨u, mem⟩ := List.exists_mem_of_ne_nil _ selected.inputs_ne
      have key : u.ref ∈ tx.body.collateral.keys :=
        a.mem_collateral_keys.mpr (List.mem_map_of_mem (taken ▸ mem))
      have keys := List.length_pos_of_mem key
      rwa [OrdMap.keys, List.length_map] at keys
    · have size := OrdSet.size_ofList_le (a.collateral.map Utxo.ref)
      rw [← a.tx_collateral, List.length_map, taken] at size
      exact size.trans selected.length_inputs_le
    · intro r mem
      obtain ⟨u, there, rfl⟩ := List.mem_map.mp (a.mem_collateral_keys.mp mem)
      exact ⟨u, a.collateral_pledgeable.subset there, rfl⟩
    · rw [a.tx_totalCollateral, found]
      rfl
    · rw [← Collateral.toNat_required selected.required_eq]
      exact UInt64.le_iff_toNat_le.mp selected.split.required_le
    · intro o returned
      rw [a.tx_collateralReturn, found] at returned
      have enough := selected.split.enough o returned
      have shape := selected.split.change_eq o returned
      rw [shape] at enough ⊢
      exact ⟨selected.returned, rfl, rfl, enough⟩

/-- What is declared of the collateral is the value of all that was taken for it. That is the value
of the outputs that the body names just where none of some value was taken twice, and so it is for
pools that list each output once. -/
theorem collateral_balanced_iff (h : balance s d pools = .ok tx)
    (fits : ∀ c, (pools.pledgeable.map (fun u => u.value.amount c)).sum ≤ UInt64.size - 1) :
    ∃ taken : List Utxo, tx.body.collateral = OrdSet.ofList (taken.map Utxo.ref) ∧
      taken.Subperm pools.pledgeable ∧
      (∀ c, tx.declared c = (taken.map (fun u => u.value.amount c)).sum) ∧
      (pools.Unambiguous →
        ((∀ c, ((pools.pledged tx).map (fun u => u.value.amount c)).sum = tx.declared c) ↔
          ∀ u ∈ pools.pledged tx, u.value.isZero = false →
            (taken.map Utxo.ref).count u.ref = 1)) ∧
      ((pools.pledgeable.map Utxo.ref).Nodup →
        ∀ c, ((pools.pledged tx).map (fun u => u.value.amount c)).sum = tx.declared c) := by
  obtain ⟨plan, state, _, ⟨a⟩⟩ := balance_ok h
  have declared := a.declared_eq fits
  refine ⟨a.collateral, a.tx_collateral, a.collateral_pledgeable, declared, ?_, ?_⟩
  · intro unique
    simp only [declared]
    exact a.amount_pledged_eq_iff unique
  · intro distinct
    have unique : pools.Unambiguous := fun u hu v hv => List.inj_on_of_nodup_map distinct hu hv
    simp only [declared]
    refine (a.amount_pledged_eq_iff unique).mpr (fun u mem _ => ?_)
    obtain ⟨listed, perm, sublist⟩ := a.collateral_pledgeable
    have once : (a.collateral.map Utxo.ref).Nodup :=
      (perm.map Utxo.ref).nodup_iff.mp (distinct.sublist (sublist.map Utxo.ref))
    obtain ⟨r, key, named⟩ := List.mem_filterMap.mp mem
    obtain rfl := Pools.pledge_ref named
    exact List.count_eq_one_of_mem once (a.mem_collateral_keys.mp key)

end Balance

namespace Sample

/-- A pool that lists an output twice: it is taken twice, and named once. -/
example : (Collateral.select setup.params setup.config
    { collateralChangeAddress := some (keyAddress 3) }
    { collateral := some [utxo 1 (keyAddress 1) (.ofLovelace 2000000),
        utxo 1 (keyAddress 1) (.ofLovelace 2000000)] } 1700000).satisfies (fun c =>
      c.inputs.map (fun u => u.ref.index) == [1, 1] && c.total == 2550000 &&
        c.change.map (fun o => o.value.lovelace) == some 1450000) = true := by
  cbv

def unlocking : Script := .plutus .v3 [2]

def pledging : List Intent :=
  [.changeAddress (.value (keyAddress 3)),
    .collateralChangeAddress (.value (keyAddress 3)),
    .utxos [utxo 0 (keyAddress 1) (.ofLovelace 10000000)],
    .collateralUtxos [utxo 1 (scriptAddress 1) (.ofLovelace 9000000),
      utxo 2 (keyAddress 1) (.ofLovelace 5000000)],
    .script unlocking,
    .deregister (.value ⟨.testnet, .script unlocking.hash⟩) (some (.list []))]

theorem pledging_passes : (run pledging).satisfies (fun (w, tx) =>
    !tx.witnesses.redeemers.isEmpty && tx.body.totalCollateral == some 2551286 &&
      tx.body.collateralReturn.map (fun o => o.value.lovelace) == some 2448714 &&
      w.draft.collateralChangeAddress == some (keyAddress 3) &&
      w.pools.pledgeable.map (fun u => u.ref.index) == [2] &&
      w.pools.pledgeable.all (fun u => !u.value.hasAssets)) = true := by
  decide +kernel

end Sample

theorem Balance.collateral_covers_pledging : ∃ w tx, Sample.run Sample.pledging = .ok (w, tx) ∧
    tx.witnesses.redeemers ≠ [] ∧ 1 ≤ tx.body.collateral.size ∧
    (∀ r ∈ tx.body.collateral.keys, r.index = 2) ∧
    (Fee.collateral Sample.setup.params tx.body.fee).toNat ≤ 2551286 ∧
    ∃ o, tx.body.collateralReturn = some o ∧ o.address = Sample.keyAddress 3 ∧
      Fee.requiredLovelace Sample.setup.params.coinsPerUtxoByte o ≤ 2448714 := by
  obtain ⟨⟨w, tx⟩, ran, passes⟩ := Except.satisfies_iff.mp Sample.pledging_passes
  simp only [Bool.and_eq_true, beq_iff_eq, Bool.not_eq_true', List.isEmpty_eq_false_iff] at passes
  obtain ⟨⟨⟨⟨⟨runs, total⟩, returned⟩, address⟩, offered⟩, _⟩ := passes
  obtain ⟨_, balanced⟩ := Sample.run_ok ran
  obtain ⟨least, _, named, ⟨n, forfeited, covered⟩, change⟩ :=
    (collateral_covers balanced).2 runs
  refine ⟨w, tx, ran, runs, least, ?_, ?_, ?_⟩
  · intro r mem
    obtain ⟨u, there, rfl⟩ := named r mem
    have index : u.ref.index ∈ w.pools.pledgeable.map (fun u => u.ref.index) :=
      List.mem_map_of_mem there
    rwa [offered, List.mem_singleton] at index
  · obtain rfl : n = 2551286 := Option.some.inj (forfeited.symm.trans total)
    exact Nat.le_of_add_right_le covered
  · obtain ⟨o, returned, lovelace⟩ := Option.map_eq_some_iff.mp returned
    obtain ⟨there, _, _, enough⟩ := change o returned
    exact ⟨o, returned, Option.some.inj (there.symm.trans address), lovelace ▸ enough⟩

theorem Balance.collateral_balanced_pledging : ∃ w tx, Sample.run Sample.pledging = .ok (w, tx) ∧
    tx.body.totalCollateral = some 2551286 ∧
    ∀ c, ((w.pools.pledged tx).map (fun u => u.value.amount c)).sum = tx.declared c := by
  obtain ⟨⟨w, tx⟩, ran, passes⟩ := Except.satisfies_iff.mp Sample.pledging_passes
  simp only [Bool.and_eq_true, beq_iff_eq, List.all_eq_true, Bool.not_eq_true'] at passes
  obtain ⟨⟨⟨⟨⟨_, total⟩, _⟩, _⟩, offered⟩, pure⟩ := passes
  obtain ⟨_, balanced⟩ := Sample.run_ok ran
  obtain ⟨u, others, only, _, none⟩ := List.map_eq_cons_iff.mp offered
  obtain rfl := List.map_eq_nil_iff.mp none
  have fits : ∀ c, (w.pools.pledgeable.map (fun u => u.value.amount c)).sum ≤ UInt64.size - 1 := by
    intro c
    simpa [only] using u.value.amount_le c
  obtain ⟨_, _, _, _, _, same⟩ := collateral_balanced_iff balanced fits
  exact ⟨w, tx, ran, total, same (by simp [only])⟩

end ConwayTx
