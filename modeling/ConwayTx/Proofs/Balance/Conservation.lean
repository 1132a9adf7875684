import ConwayTx.Proofs.Balance.Accepted
import Mathlib
/-!
Value is conserved: what a balanced transaction spends, mints, gets back and withdraws is what it
sends, burns, pays and locks. Outputs and deposits are added up exactly, inputs only as far as the
largest word, and what they hold beyond it is lost.
-/

namespace ConwayTx

namespace Tx

variable (tx : Tx) (p : Params)

def given : Component → Nat
  | .lovelace =>
    (tx.body.certificates.map (fun c => (c.refund p.keyDeposit).toNat)).sum +
      (tx.body.withdrawals.values.map UInt64.toNat).sum
  | .asset id => (tx.body.mint.quantity id.policy id.name).toInt.toNat

def taken : Component → Nat
  | .lovelace =>
    tx.body.fee.toNat +
      ((tx.body.certificates.map (fun c => (c.deposit p.keyDeposit).toNat)).sum +
        (tx.body.proposals.map (fun q => q.deposit.toNat)).sum)
  | .asset id => (-(tx.body.mint.quantity id.policy id.name).toInt).toNat

def incoming (spent : List Utxo) (c : Component) : Nat :=
  (spent.map (fun u => u.value.amount c)).sum + tx.given p c

def outgoing (c : Component) : Nat :=
  (tx.body.outputs.map (fun o => o.value.amount c)).sum + tx.taken p c

theorem incoming_lovelace (spent : List Utxo) :
    tx.incoming p spent .lovelace =
      ((spent.map (fun u => u.value.lovelace)).map UInt64.toNat).sum +
        (((tx.body.certificates.map (fun c => c.refund p.keyDeposit)).map UInt64.toNat).sum +
          (tx.body.withdrawals.values.map UInt64.toNat).sum) := by
  rw [List.map_map, List.map_map]
  rfl

theorem outgoing_lovelace :
    tx.outgoing p .lovelace =
      ((tx.body.outputs.map (fun o => o.value.lovelace)).map UInt64.toNat).sum +
        (tx.body.fee.toNat +
          (((tx.body.certificates.map (fun c => c.deposit p.keyDeposit)).map UInt64.toNat).sum +
            ((tx.body.proposals.map (fun q => q.deposit)).map UInt64.toNat).sum)) := by
  rw [List.map_map, List.map_map, List.map_map]
  rfl

theorem incoming_asset (h : tx.body.mint.minted.hasAssets = false) (spent : List Utxo)
    (id : AssetId) :
    tx.incoming p spent (.asset id) = (spent.map (fun u => u.value.amount (.asset id))).sum := by
  have none : tx.given p (.asset id) = 0 := by
    rw [given, ← Mint.amount_minted_asset]
    exact Value.amount_asset_of_not_hasAssets h id
  rw [incoming, none, Nat.add_zero]

end Tx

namespace Balance

variable {s : Setup} {d : Draft} {pools : Pools} {plan : Plan} {state : State} {tx : Tx}

theorem Settled.amount {coinsPerByte : UInt64} {address : Address} {rest : Value}
    {change : Option TxOut} {dust : UInt64}
    (h : Settled coinsPerByte address rest change dust) (c : Component) :
    rest.amount c =
      (change.toList.map (fun o => o.value.amount c)).sum + (Value.ofLovelace dust).amount c := by
  have nothing : (Value.ofLovelace 0).amount c = 0 := Value.amount_zero c
  cases h with
  | exact zero => simp [nothing, Value.isZero_iff.mp zero c]
  | output enough => simp [nothing]
  | dust pure =>
    cases c with
    | lovelace =>
      rw [Option.toList_none, List.map_nil, List.sum_nil, Nat.zero_add]
      rfl
    | asset id => simp [Value.amount_asset_of_not_hasAssets pure id]

namespace Accepted

variable (planned : Planned s.params d pools plan) (a : Accepted s d pools plan state tx)
include planned a

theorem amount_implicit (c : Component) : plan.implicit.amount c = tx.given s.params c := by
  cases c with
  | lovelace =>
    rw [Draft.amount_implicitInput_lovelace planned.implicit, Tx.given, a.tx_certificates,
      a.tx_withdrawals]
    simp [OrdMap.values, OrdMap.mapValues, Function.comp_def]
  | asset id =>
    rw [Draft.amount_implicitInput_asset planned.implicit, Tx.given, a.tx_mint]

theorem amount_spend_rest (c : Component) :
    a.spend.amount c + a.rest.amount c = tx.outgoing s.params c := by
  have spend := Plan.amount_spend a.spend_eq c
  have rest := a.settled.amount c
  rw [spend, rest, Tx.outgoing, a.tx_outputs, List.map_append, List.sum_append]
  cases c with
  | lovelace =>
    have fee := a.toNat_tx_fee
    have certificates : tx.body.certificates.map (fun c => (c.deposit s.params.keyDeposit).toNat) =
        d.certificates.map (fun c => (c.action.deposit s.params.keyDeposit).toNat) := by
      rw [a.tx_certificates, List.map_map]
      rfl
    have proposals : tx.body.proposals.map (fun q => q.deposit.toNat) =
        d.proposals.map (fun q => q.action.deposit.toNat) := by
      rw [a.tx_proposals, List.map_map]
      rfl
    rw [planned.amount_committed_lovelace, Tx.taken, certificates, proposals, fee]
    simp only [Value.amount_ofLovelace_lovelace]
    omega
  | asset id =>
    rw [planned.amount_committed_asset, Tx.taken, a.tx_mint]
    simp only [Value.amount_ofLovelace_asset]
    omega

theorem outgoing_eq (c : Component) :
    tx.outgoing s.params c = min (tx.incoming s.params a.inputs c) (UInt64.size - 1) := by
  have difference := Value.amount_of_checkedSub a.rest_eq c
  have provided := Value.amount_add (Utxo.total a.inputs) plan.implicit c
  rw [Utxo.amount_total, a.amount_implicit planned c] at provided
  -- Adding up the inputs saturates, adding what is given does so again, and nothing else does.
  rw [← a.amount_spend_rest planned c, Tx.incoming]
  omega

end Accepted

/-- Every reference names an output. These, with what is minted, given back and withdrawn, are what
is sent, burned, paid and locked. -/
theorem value_conserved (reachable : d.Reachable) (largest : s.select = Selection.largestFirst)
    (h : balance s d pools = .ok tx)
    (fits : ∀ c, tx.incoming s.params (pools.spent d tx) c ≤ UInt64.size - 1) :
    (pools.spent d tx).map Utxo.ref = tx.body.inputs.keys ∧
      ∀ c, tx.incoming s.params (pools.spent d tx) c = tx.outgoing s.params c := by
  obtain ⟨plan, state, made, ⟨a⟩⟩ := balance_ok h
  have planned := plan_ok made
  have pins := reachable.pinsByRef
  have lawful : s.select.Lawful := largest ▸ Selection.largestFirst_lawful
  have spent := a.inputs_eq_spent planned pins lawful
  constructor
  · rw [a.tx_inputs_keys planned pins lawful, spent]
  · intro c
    have out := a.outgoing_eq planned c
    rw [spent] at out
    rw [out, Nat.min_eq_left (fits c)]

/-- A component is conserved exactly where what comes in of it fits a word; else the excess is
lost. -/
theorem conserved_iff_fits (h : balance s d pools = .ok tx) :
    ∃ spent, tx.body.inputs = OrdSet.ofList (spent.map Utxo.ref) ∧
      (d.PinsByRef → s.select.Lawful → spent = pools.spent d tx) ∧
      ∀ c, tx.outgoing s.params c = min (tx.incoming s.params spent c) (UInt64.size - 1) ∧
        (tx.incoming s.params spent c ≤ UInt64.size - 1 ↔
          tx.incoming s.params spent c = tx.outgoing s.params c) := by
  obtain ⟨plan, state, made, ⟨a⟩⟩ := balance_ok h
  have planned := plan_ok made
  refine ⟨a.inputs, a.tx_inputs, a.inputs_eq_spent planned, fun c => ?_⟩
  have out := a.outgoing_eq planned c
  refine ⟨out, ?_, ?_⟩
  · intro fits
    rw [out, Nat.min_eq_left fits]
  · intro same
    rw [same, out]
    exact Nat.min_le_right _ _

end Balance

namespace Sample

def token : AssetId := ⟨hash 4, ⟨[1], by decide⟩⟩

def tokens (lovelace amount : UInt64) : Value := (Value.ofLovelace lovelace).withAsset token amount

def paying : List Intent :=
  [.changeAddress (.value (keyAddress 3)),
    .utxos [utxo 1 (keyAddress 1) (.ofLovelace 10000000)],
    .input { utxo := utxo 0 (keyAddress 1) (tokens 3000000 5) },
    .deregister (.value ⟨.testnet, .key (hash 1)⟩) none,
    .withdraw (.value ⟨.testnet, .key (hash 1)⟩) 700000 none,
    .send (.value (keyAddress 2)) (tokens 0 3),
    .send (.value (keyAddress 2)) (.ofLovelace 9000000)]

set_option maxRecDepth 20000 in
theorem paying_passes : (run paying).satisfies (fun (w, tx) =>
    (w.pools.spent w.draft tx).map (fun u => u.value.lovelace) == [3000000, 10000000] &&
      (w.pools.spent w.draft tx).map (fun u => u.value.hasAssets) == [true, false] &&
      tx.body.certificates.map (fun c => c.refund setup.params.keyDeposit) == [2000000] &&
      tx.body.withdrawals.values == [700000] && !tx.body.mint.minted.hasAssets) = true := by
  cbv

end Sample

theorem Balance.value_conserved_paying : ∃ w tx, Sample.run Sample.paying = .ok (w, tx) ∧
    ∀ c, tx.incoming Sample.setup.params (w.pools.spent w.draft tx) c =
      tx.outgoing Sample.setup.params c := by
  obtain ⟨⟨w, tx⟩, ran, passes⟩ := Except.satisfies_iff.mp Sample.paying_passes
  simp only [Bool.and_eq_true, beq_iff_eq, Bool.not_eq_true'] at passes
  obtain ⟨⟨⟨⟨held, holders⟩, refunded⟩, withdrawn⟩, unminted⟩ := passes
  obtain ⟨reachable, balanced⟩ := Sample.run_ok ran
  refine ⟨w, tx, ran, (value_conserved reachable rfl balanced ?_).2⟩
  intro c
  cases c with
  | lovelace =>
    rw [Tx.incoming_lovelace, held, refunded, withdrawn]
    decide
  | asset id =>
    obtain ⟨u, others, spent, _, holders⟩ := List.map_eq_cons_iff.mp holders
    obtain ⟨v, others, rfl, pure, holders⟩ := List.map_eq_cons_iff.mp holders
    obtain rfl := List.map_eq_nil_iff.mp holders
    rw [Tx.incoming_asset _ _ unminted, spent]
    simpa [Value.amount_asset_of_not_hasAssets pure id] using u.value.amount_le (.asset id)

namespace Sample

def doubled : List Intent :=
  [.changeAddress (.value (keyAddress 3)),
    .utxos [utxo 0 (scriptAddress 1) (.ofLovelace 30000000),
      utxo 0 (keyAddress 1) (.ofLovelace 10000000)],
    .send (.value (keyAddress 2)) (.ofLovelace 2000000)]

def firstNamed (pools : Pools) (d : Draft) (r : OutRef) : Option Utxo :=
  match d.inputs.get? r with
  | some pin => some pin.utxo
  | none => (pools.available.getD []).find? (·.ref == r)

def firstSpent (w : Work) (tx : Tx) : List Utxo :=
  tx.body.inputs.keys.filterMap (firstNamed w.pools w.draft)

theorem doubled_passes : (run doubled).satisfies (fun (w, tx) =>
    (firstSpent w tx).map (fun u => u.value.lovelace) == [30000000] &&
      (firstSpent w tx).map (fun u => u.value.hasAssets) == [false] &&
      tx.body.outputs.map (fun o => o.value.lovelace) == [2000000, 7834411] &&
      tx.body.fee == 165589 && tx.body.certificates == [] && tx.body.withdrawals.values == [] &&
      tx.body.proposals.map (fun q => q.deposit) == [] && !tx.body.mint.minted.hasAssets) =
    true := by
  decide +kernel

end Sample

theorem Balance.not_conserved_by_firstNamed : ∃ w tx, Sample.run Sample.doubled = .ok (w, tx) ∧
    w.draft.Reachable ∧ balance Sample.setup w.draft w.pools = .ok tx ∧
    (∀ c, tx.incoming Sample.setup.params (Sample.firstSpent w tx) c ≤ UInt64.size - 1) ∧
    tx.incoming Sample.setup.params (Sample.firstSpent w tx) .lovelace = 30000000 ∧
    tx.outgoing Sample.setup.params .lovelace = 10000000 := by
  obtain ⟨⟨w, tx⟩, ran, passes⟩ := Except.satisfies_iff.mp Sample.doubled_passes
  simp only [Bool.and_eq_true, beq_iff_eq, Bool.not_eq_true'] at passes
  obtain ⟨⟨⟨⟨⟨⟨⟨held, holders⟩, sent⟩, fee⟩, certificates⟩, withdrawn⟩, locked⟩, unminted⟩ := passes
  obtain ⟨reachable, balanced⟩ := Sample.run_ok ran
  have incoming :
      tx.incoming Sample.setup.params (Sample.firstSpent w tx) .lovelace = 30000000 := by
    rw [Tx.incoming_lovelace, held, withdrawn, certificates]
    rfl
  refine ⟨w, tx, ran, reachable, balanced, ?_, incoming, ?_⟩
  · intro c
    cases c with
    | lovelace =>
      rw [incoming]
      decide
    | asset id =>
      obtain ⟨u, others, spent, pure, holders⟩ := List.map_eq_cons_iff.mp holders
      obtain rfl := List.map_eq_nil_iff.mp holders
      rw [Tx.incoming_asset _ _ unminted, spent]
      simp [Value.amount_asset_of_not_hasAssets pure id]
  · rw [Tx.outgoing_lovelace, sent, fee, locked, certificates]
    rfl

namespace Sample

def hoard : List Intent :=
  [.changeAddress (.value (keyAddress 3)),
    .utxos [],
    .input { utxo := utxo 0 (keyAddress 1) (tokens 10000000 0xffffffffffffffff) },
    .input { utxo := utxo 1 (keyAddress 1) (tokens 10000000 1) }]

set_option maxRecDepth 20000 in
theorem hoard_passes : (run hoard).satisfies (fun (w, tx) =>
    tx.incoming setup.params (w.pools.spent w.draft tx) (.asset token) == UInt64.size) = true := by
  cbv

end Sample

theorem Balance.excess_is_lost : ∃ w tx spent, Sample.run Sample.hoard = .ok (w, tx) ∧
    tx.body.inputs = OrdSet.ofList (spent.map Utxo.ref) ∧
    tx.incoming Sample.setup.params spent (.asset Sample.token) = UInt64.size ∧
    tx.outgoing Sample.setup.params (.asset Sample.token) = UInt64.size - 1 := by
  obtain ⟨⟨w, tx⟩, ran, passes⟩ := Except.satisfies_iff.mp Sample.hoard_passes
  obtain ⟨reachable, balanced⟩ := Sample.run_ok ran
  obtain ⟨spent, inputs, named, each⟩ := conserved_iff_fits balanced
  obtain rfl := named reachable.pinsByRef Selection.largestFirst_lawful
  have total := beq_iff_eq.mp passes
  refine ⟨w, tx, _, ran, inputs, total, ?_⟩
  rw [(each _).1, total]
  rfl

end ConwayTx
