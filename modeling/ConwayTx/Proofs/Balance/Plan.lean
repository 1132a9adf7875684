import ConwayTx.Balance
import ConwayTx.Proofs.Spending
import ConwayTx.Proofs.Value

namespace ConwayTx

theorem Total.toNat_sum {total : Total} {amounts : List UInt64} {n : UInt64}
    (h : total.sum amounts = .ok n) : n.toNat = (amounts.map UInt64.toNat).sum := by
  suffices ∀ from_ : UInt64, amounts.foldlM UInt64.checkedAdd from_ = some n →
      n.toNat = from_.toNat + (amounts.map UInt64.toNat).sum by
    cases added : amounts.foldlM UInt64.checkedAdd 0 with
    | none => simp [Total.sum, added] at h
    | some m =>
      simp only [Total.sum, added, Except.ok.injEq] at h
      subst h
      have exact := this 0 added
      rwa [UInt64.toNat_zero, Nat.zero_add] at exact
  clear h
  induction amounts with
  | nil =>
    intro from_ added
    cases added
    simp
  | cons a rest ih =>
    intro from_ added
    rw [List.foldlM_cons, Option.bind_eq_bind, Option.bind_eq_some_iff] at added
    obtain ⟨next, step, added⟩ := added
    rw [ih next added, UInt64.checkedAdd_eq_some_iff.mp step, List.map_cons, List.sum_cons]
    omega

namespace Draft

variable {d : Draft} {p : Params}

theorem toNat_deposits {n : UInt64} (h : d.deposits p = .ok n) :
    n.toNat = (d.certificates.map (fun c => (c.action.deposit p.keyDeposit).toNat)).sum +
      (d.proposals.map (fun q => q.action.deposit.toNat)).sum := by
  rw [Total.toNat_sum h, List.map_append, List.sum_append, List.map_map, List.map_map]
  rfl

theorem amount_implicitInput_lovelace {v : Value} (h : d.implicitInput p = .ok v) :
    v.amount .lovelace =
      (d.certificates.map (fun c => (c.action.refund p.keyDeposit).toNat)).sum +
        (d.withdrawals.values.map (fun w => w.action.toNat)).sum := by
  obtain ⟨refunds, refunded, h⟩ := Except.bind_eq_ok.mp h
  obtain ⟨withdrawn, withdrawals, h⟩ := Except.bind_eq_ok.mp h
  obtain ⟨lovelace, together, h⟩ := Except.bind_eq_ok.mp h
  split at h
  · rename_i sum added
    cases h
    rw [Value.amount_of_checkedAdd added, Mint.amount_minted_lovelace,
      Value.amount_ofLovelace_lovelace, Total.toNat_sum together]
    simp [Total.toNat_sum refunded, Total.toNat_sum withdrawals, Function.comp_def]
  · cases h

theorem amount_implicitInput_asset {v : Value} (h : d.implicitInput p = .ok v) (id : AssetId) :
    v.amount (.asset id) = (d.mint.quantity id.policy id.name).toInt.toNat := by
  obtain ⟨refunds, _, h⟩ := Except.bind_eq_ok.mp h
  obtain ⟨withdrawn, _, h⟩ := Except.bind_eq_ok.mp h
  obtain ⟨lovelace, _, h⟩ := Except.bind_eq_ok.mp h
  split at h
  · rename_i sum added
    cases h
    rw [Value.amount_of_checkedAdd added, Mint.amount_minted_asset,
      Value.amount_ofLovelace_asset, Nat.add_zero]
  · cases h

end Draft

namespace Balance

variable {p : Params} {d : Draft} {pools : Pools} {plan : Plan}

theorem amount_exactSum {vs : List Value} {v : Value} (h : exactSum vs = .ok v) (c : Component) :
    v.amount c = (vs.map (Value.amount · c)).sum := by
  unfold exactSum at h
  split at h
  · rename_i added
    cases h
    rw [Value.amount_of_foldlM added, Value.amount_zero, Nat.zero_add]
  · cases h

structure Planned (p : Params) (d : Draft) (pools : Pools) (plan : Plan) : Prop where
  changeAddress : d.changeAddress = some plan.changeAddress
  candidates : pools.candidates d = some plan.candidates
  pinned : plan.pinned = d.pinned
  outputs : plan.outputs = d.outputs.map (raise p.coinsPerUtxoByte)
  minimumFee : plan.minimumFee = d.minimumFee.getD 0
  implicit : d.implicitInput p = .ok plan.implicit
  deposits : d.deposits p = .ok plan.deposits
  committed : exactSum (plan.outputs.map TxOut.value ++
    [d.mint.burned, Value.ofLovelace plan.deposits]) = .ok plan.committed

theorem orNotSet_eq_ok {α : Type} {what : Setting} {o : Option α} {a : α} :
    orNotSet what o = .ok a ↔ o = some a := by
  cases o <;> simp [orNotSet]

theorem plan_ok (h : Balance.plan p d pools = .ok plan) : Planned p d pools plan := by
  obtain ⟨changeAddress, address, h⟩ := Except.bind_eq_ok.mp h
  obtain ⟨candidates, offered, h⟩ := Except.bind_eq_ok.mp h
  obtain ⟨implicit, given, h⟩ := Except.bind_eq_ok.mp h
  obtain ⟨deposits, locked, h⟩ := Except.bind_eq_ok.mp h
  obtain ⟨committed, taken, h⟩ := Except.bind_eq_ok.mp h
  cases h
  exact ⟨orNotSet_eq_ok.mp address, orNotSet_eq_ok.mp offered, rfl, rfl, rfl, given, locked, taken⟩

theorem Planned.amount_committed_lovelace (planned : Planned p d pools plan) :
    plan.committed.amount .lovelace =
      (plan.outputs.map (fun o => o.value.amount .lovelace)).sum +
        ((d.certificates.map (fun c => (c.action.deposit p.keyDeposit).toNat)).sum +
          (d.proposals.map (fun q => q.action.deposit.toNat)).sum) := by
  rw [amount_exactSum planned.committed, ← Draft.toNat_deposits planned.deposits]
  simp [Function.comp_def]

theorem Planned.amount_committed_asset (planned : Planned p d pools plan) (id : AssetId) :
    plan.committed.amount (.asset id) =
      (plan.outputs.map (fun o => o.value.amount (.asset id))).sum +
        (-(d.mint.quantity id.policy id.name).toInt).toNat := by
  rw [amount_exactSum planned.committed, ← Mint.amount_burned_asset]
  simp [Function.comp_def]

theorem Plan.amount_spend {fee : UInt64} {v : Value} (h : plan.spend fee = .ok v) (c : Component) :
    v.amount c = plan.committed.amount c + (Value.ofLovelace fee).amount c := by
  unfold Plan.spend at h
  split at h
  · rename_i added
    cases h
    exact Value.amount_of_checkedAdd added c
  · cases h

theorem cheapest?_mem {us : List Utxo} {u : Utxo} (h : cheapest? us = some u) : u ∈ us := by
  induction us generalizing u with
  | nil => cases h
  | cons v rest ih =>
    unfold cheapest? at h
    split at h
    · rename_i w found
      split at h
      · cases h
        exact List.mem_cons_of_mem _ (ih found)
      · cases h
        exact List.mem_cons_self
    · cases h
      exact List.mem_cons_self

theorem Plan.fund_cases {select : Selector} {target : Value} {inputs : List Utxo}
    (h : plan.fund select target = .ok inputs) :
    ∃ chosen, select plan.pinned plan.candidates target = .ok chosen ∧
      (plan.pinned ++ chosen.selected ≠ [] ∧
          inputs = Utxo.sortByRef (plan.pinned ++ chosen.selected) ∨
        plan.pinned ++ chosen.selected = [] ∧
          ∃ u, cheapest? plan.candidates = some u ∧ inputs = [u]) := by
  unfold Plan.fund at h
  cases selection : select plan.pinned plan.candidates target with
  | error missing => simp [selection] at h
  | ok chosen =>
    refine ⟨chosen, rfl, ?_⟩
    simp only [selection] at h
    split at h
    · rename_i nothing
      cases found : cheapest? plan.candidates with
      | none => simp [found] at h
      | some u =>
        simp only [found] at h
        cases h
        exact .inr ⟨nothing, u, rfl, rfl⟩
    · rename_i something
      cases h
      exact .inl ⟨something, rfl⟩

structure Funded (plan : Plan) (select : Selector) (inputs : List Utxo) : Prop where
  drawn : ∃ chosen : List Utxo, inputs.Perm (plan.pinned ++ chosen) ∧
    (select.Lawful → chosen.Subperm plan.candidates)
  sorted : inputs.Pairwise (fun u v => ¬ Ranked.Precedes v.ref u.ref)
  ne_nil : inputs ≠ []

theorem Plan.fund_ok {select : Selector} {target : Value} {inputs : List Utxo}
    (h : plan.fund select target = .ok inputs) : Funded plan select inputs := by
  obtain ⟨chosen, selection, ⟨something, rfl⟩ | ⟨nothing, u, found, rfl⟩⟩ := plan.fund_cases h
  · have perm := Ranked.sortOn_perm Utxo.ref (plan.pinned ++ chosen.selected)
    refine ⟨⟨chosen.selected, perm, fun lawful => lawful _ _ _ _ selection⟩,
      Ranked.sortOn_sorted _ _, fun none => ?_⟩
    exact something (List.nil_perm.mp (none ▸ perm))
  · obtain ⟨none_pinned, _⟩ := List.append_eq_nil_iff.mp nothing
    refine ⟨⟨[u], by simp [none_pinned], fun _ => ?_⟩, List.pairwise_singleton _ _, by simp⟩
    exact List.singleton_subperm_iff.mpr (cheapest?_mem found)

end Balance

end ConwayTx
