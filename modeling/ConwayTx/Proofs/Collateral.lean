import ConwayTx.Collateral
import ConwayTx.Proofs.Except
import ConwayTx.Proofs.Selection
import ConwayTx.Proofs.Selection.Order

namespace ConwayTx

theorem Value.amount_eq_add_rest {v : Value} {required : UInt64} (h : required ≤ v.lovelace)
    (c : Component) : v.amount c =
      (ofLovelace required).amount c + (v.saturatingSub (ofLovelace required)).amount c := by
  rw [amount_saturatingSub]
  cases c with
  | lovelace =>
    have := UInt64.le_iff_toNat_le.mp h
    simp only [amount, ofLovelace]
    omega
  | asset id => simp

theorem Utxo.total_concat (us : List Utxo) (u : Utxo) : total (us ++ [u]) = total us + u.value := by
  rw [total, total, List.map_append, Value.sum, Value.sum, List.foldl_append]
  rfl

def Pools.pledgeable (pools : Pools) : List Utxo :=
  (pools.collateral.getD []).filter (fun u => !u.output.address.isScript)

namespace Collateral

variable {c : Collateral}

def order (u : Utxo) : List Nat := u.value.hasAssets.toNat :: Utxo.lack Value.lovelace u

theorem before_eq (a b : Utxo) : before a b = !decide (Ranked.Precedes (order b) (order a)) := by
  rw [Bool.eq_iff_iff, before, Utxo.atLeast_eq, Bool.not_eq_true', decide_eq_false_iff_not, order,
    order, Ranked.precedes_cons_iff]
  cases ha : a.value.hasAssets <;> cases hb : b.value.hasAssets <;> simp

theorem candidates_eq_sortOn (pool : List Utxo) : candidates pool =
    Ranked.sortOn order (pool.filter (fun u => !u.output.address.isScript)) :=
  Ranked.mergeSort_eq_sortOn before_eq _

theorem candidates_eq_of_perm {us vs : List Utxo} (nodup : (us.map Utxo.ref).Nodup)
    (perm : us.Perm vs) : candidates us = candidates vs := by
  rw [candidates_eq_sortOn, candidates_eq_sortOn]
  refine Ranked.sortOn_eq_of_perm ?_ (perm.filter _)
  intro u here v there same
  exact Utxo.eq_of_ref_eq nodup u (List.mem_of_mem_filter here) v (List.mem_of_mem_filter there)
    (Utxo.ref_eq_of_lack_eq (List.cons.inj same).2)

theorem gather_ok {split : Value → Option (UInt64 × Option TxOut)} {taken us : List Utxo}
    (h : gather split taken (Utxo.total taken) us = some c) :
    ∃ more, c.inputs = taken ++ more ∧ more <+: us ∧ more ≠ [] ∧
      split (Utxo.total c.inputs) = some (c.total, c.change) := by
  induction us generalizing taken with
  | nil => cases h
  | cons u rest ih =>
    rw [gather, ← Utxo.total_concat] at h
    split at h
    · rename_i forfeited change found
      cases h
      exact ⟨[u], rfl, List.prefix_append [u] rest, List.cons_ne_nil _ _, found⟩
    · obtain ⟨more, inputs, front, _, found⟩ := ih h
      refine ⟨u :: more, ?_, List.cons_prefix_cons.mpr ⟨rfl, front⟩, List.cons_ne_nil _ _, found⟩
      rw [inputs, List.append_assoc, List.singleton_append]

structure Split (coinsPerByte : UInt64) (address : Address) (required : UInt64) (value : Value)
    (forfeited : UInt64) (change : Option TxOut) : Prop where
  required_le : required ≤ forfeited
  amount : ∀ component, value.amount component =
    (Value.ofLovelace forfeited).amount component +
      (change.toList.map (fun o => o.value.amount component)).sum
  change_eq : ∀ o, change = some o → o = { address := address, value := o.value }
  enough : ∀ o, change = some o → Fee.requiredLovelace coinsPerByte o ≤ o.value.lovelace
  left : ∀ o, change = some o → o.value = value.saturatingSub (Value.ofLovelace required)

theorem split?_ok {coinsPerByte : UInt64} {address : Address} {required : UInt64} {value : Value}
    {forfeited : UInt64} {change : Option TxOut}
    (h : split? coinsPerByte address required value = some (forfeited, change)) :
    Split coinsPerByte address required value forfeited change := by
  unfold split? at h
  by_cases short : value.lovelace < required
  · simp [short] at h
  have reached : required ≤ value.lovelace := UInt64.not_lt.mp short
  have rest := Value.amount_eq_add_rest reached
  simp only [short, if_false] at h
  generalize made : value.saturatingSub (Value.ofLovelace required) = left at h rest
  by_cases zero : left.isZero = true
  · simp only [zero, if_true, Option.some.injEq, Prod.mk.injEq] at h
    obtain ⟨rfl, rfl⟩ := h
    refine ⟨UInt64.le_refl _, fun component => ?_, by simp, by simp, by simp⟩
    rw [rest, Value.isZero_iff.mp zero]
    simp
  by_cases enough : Fee.requiredLovelace coinsPerByte { address := address, value := left } ≤
      left.lovelace
  · simp only [zero, enough, if_true, Bool.false_eq_true, if_false, Option.some.injEq,
      Prod.mk.injEq] at h
    obtain ⟨rfl, rfl⟩ := h
    refine ⟨UInt64.le_refl _, fun component => ?_, ?_, ?_, ?_⟩
    · rw [rest]
      simp
    · rintro o ⟨rfl⟩
      rfl
    · rintro o ⟨rfl⟩
      exact enough
    · rintro o ⟨rfl⟩
      exact made.symm
  cases assets : left.hasAssets with
  | true => simp [zero, enough, assets] at h
  | false =>
    simp only [zero, enough, assets, Bool.false_eq_true, if_false, Bool.not_false, if_true,
      Option.some.injEq, Prod.mk.injEq] at h
    obtain ⟨rfl, rfl⟩ := h
    refine ⟨reached, fun component => ?_, by simp, by simp, by simp⟩
    cases component with
    | lovelace => rfl
    | asset id =>
      rw [rest, Value.amount_asset_of_not_hasAssets assets]
      simp

structure Selected (p : Params) (cfg : Config) (d : Draft) (pools : Pools) (fee : UInt64)
    (c : Collateral) where
  pool : List Utxo
  address : Address
  required : UInt64
  offered : pools.collateral = some pool
  returned : d.collateralChangeAddress = some address
  required_eq : Collateral.required p cfg fee = .ok required
  front : c.inputs <+: (candidates pool).take p.maxCollateralInputs.toNat
  inputs_ne : c.inputs ≠ []
  split : Split p.coinsPerUtxoByte address required (Utxo.total c.inputs) c.total c.change

section Select

variable {p : Params} {cfg : Config} {d : Draft} {pools : Pools} {fee : UInt64}

theorem select_ok (h : select p cfg d pools fee = .ok c) :
    Nonempty (Selected p cfg d pools fee c) := by
  unfold select at h
  split at h
  · cases h
  · cases h
  · rename_i pool address offered returned
    obtain ⟨required, required_eq, h⟩ := Except.bind_eq_ok.mp h
    simp only at h
    split at h
    · rename_i found
      cases h
      have started : gather _ [] (Utxo.total []) _ = _ := found
      obtain ⟨more, inputs, front, some, divided⟩ := gather_ok started
      rw [List.nil_append] at inputs
      subst inputs
      exact ⟨{ pool, address, required, offered, returned, required_eq, front
               inputs_ne := some
               split := split?_ok divided }⟩
    · cases h

theorem toNat_required {n : UInt64} (h : Collateral.required p cfg fee = .ok n) :
    n.toNat = (Fee.collateral p fee).toNat + cfg.collateralMargin.toNat := by
  unfold Collateral.required at h
  split at h
  · rename_i added
    cases h
    exact UInt64.checkedAdd_eq_some_iff.mp added
  · cases h

namespace Selected

variable (selected : Selected p cfg d pools fee c)
include selected

theorem length_inputs_le : c.inputs.length ≤ p.maxCollateralInputs.toNat :=
  Nat.le_trans selected.front.length_le (List.length_take_le _ _)

theorem inputs_subperm : c.inputs.Subperm pools.pledgeable := by
  have taken : c.inputs.Sublist (candidates selected.pool) :=
    selected.front.sublist.trans (List.take_sublist _ _)
  rw [Pools.pledgeable, selected.offered, Option.getD_some]
  exact taken.subperm.trans (List.mergeSort_perm _ _).subperm

end Selected

end Select

end Collateral

end ConwayTx
