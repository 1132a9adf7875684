import ConwayTx.Proofs.Balance.Inputs

namespace ConwayTx

/-- Says what the draft says, apart from what balancing decides. -/
structure TxBody.Carries (b : TxBody) (d : Draft) : Prop where
  ttl : b.ttl = d.invalidAfter
  validityStart : b.validityStart = d.invalidBefore
  certificates : b.certificates = d.certificates.map Guarded.action
  withdrawals : b.withdrawals = d.withdrawals.mapValues (fun _ w => w.action)
  mint : b.mint = d.mint
  requiredSigners : b.requiredSigners = d.requiredSigners
  network : b.network = d.network
  votes : b.votes = d.votes
  proposals : b.proposals = d.proposals.map Guarded.action
  referenceInputs : b.referenceInputs.keys = d.referenceInputs.keys

theorem Balance.Parts.body_carries (parts : Parts) (d : Draft) (hash : Option (Hash 32)) :
    (parts.body d hash).Carries d :=
  ⟨rfl, rfl, rfl, rfl, rfl, rfl, rfl, rfl, rfl, OrdMap.keys_mapValues _ _⟩

namespace TxOut

@[simp] theorem amount_withLovelace_asset (o : TxOut) (n : UInt64) (id : AssetId) :
    (o.withLovelace n).value.amount (.asset id) = o.value.amount (.asset id) := rfl

end TxOut

namespace Draft

def gathered (d : Draft) (spent : List Utxo) (id : AssetId) : Nat :=
  (spent.map (fun u => u.value.amount (.asset id))).sum +
    (d.mint.quantity id.policy id.name).toInt.toNat

def asked (d : Draft) (id : AssetId) : Nat :=
  (d.outputs.map (fun o => o.value.amount (.asset id))).sum +
    (-(d.mint.quantity id.policy id.name).toInt).toNat

end Draft

namespace Balance

variable {s : Setup} {d : Draft} {pools : Pools} {plan : Plan} {state : State} {tx : Tx}

theorem raise_eq (c : UInt64) (o : TxOut) :
    raise c o = o.withLovelace (max o.value.lovelace (Fee.requiredLovelace c o)) := by
  simp only [raise]
  split
  · rename_i less
    rw [UInt64.lt_iff_toNat_lt] at less
    congr 1
    rw [← UInt64.toNat_inj, UInt64.toNat_max]
    omega
  · rename_i enough
    rw [UInt64.lt_iff_toNat_lt] at enough
    have same : max o.value.lovelace (Fee.requiredLovelace c o) = o.value.lovelace := by
      rw [← UInt64.toNat_inj, UInt64.toNat_max]
      omega
    rw [same]
    rfl

theorem Settled.change_eq {c : UInt64} {address : Address} {rest : Value} {change : Option TxOut}
    {dust : UInt64} (settled : Settled c address rest change dust) {o : TxOut}
    (made : change = some o) : o = { address := address, value := rest } := by
  cases settled with
  | exact => cases made
  | output => exact (Option.some.inj made).symm
  | dust => cases made

namespace Accepted

variable (a : Accepted s d pools plan state tx)
include a

theorem carries : tx.body.Carries d := by
  obtain ⟨hash, body⟩ := a.body_eq
  rw [body]
  exact a.parts.body_carries d hash

variable (planned : Planned s.params d pools plan)
include planned

theorem tx_outputs_eq : tx.body.outputs = d.outputs.map (fun o => o.withLovelace
    (max o.value.lovelace (Fee.requiredLovelace s.params.coinsPerUtxoByte o))) ++
      a.change.toList := by
  rw [a.tx_outputs, planned.outputs, funext (raise_eq s.params.coinsPerUtxoByte)]

theorem asked_add_change (id : AssetId) :
    d.asked id + (a.change.toList.map (fun o => o.value.amount (.asset id))).sum =
      min (d.gathered a.inputs id) (UInt64.size - 1) := by
  have out := a.outgoing_eq planned (.asset id)
  rw [Tx.outgoing, Tx.incoming, Tx.taken, Tx.given, a.tx_outputs_eq planned, a.tx_mint] at out
  rw [Draft.gathered, ← out, Draft.asked, List.map_append, List.sum_append, List.map_map]
  simp only [Function.comp_def, TxOut.amount_withLovelace_asset]
  omega

theorem change_of_excess {id : AssetId} (fits : d.gathered a.inputs id ≤ UInt64.size - 1)
    (excess : d.asked id < d.gathered a.inputs id) :
    ∃ o, a.change = some o ∧
      o.value.amount (.asset id) = d.gathered a.inputs id - d.asked id := by
  have all := a.asked_add_change planned id
  rw [Nat.min_eq_left fits] at all
  cases change : a.change with
  | none =>
    rw [change, Option.toList_none, List.map_nil, List.sum_nil] at all
    omega
  | some o =>
    refine ⟨o, rfl, ?_⟩
    rw [change, Option.toList_some, List.map_singleton, List.sum_singleton] at all
    omega

end Accepted

/-- Payments come first and in order, with the lovelace that they need, and change after them. The
rest is as the draft says. What comes in of an asset beyond what is sent or burned is change. -/
theorem request_kept (h : balance s d pools = .ok tx) :
    tx.body.Carries d ∧
      ∃ change : Option TxOut,
        tx.body.outputs = d.outputs.map (fun o => o.withLovelace
          (max o.value.lovelace (Fee.requiredLovelace s.params.coinsPerUtxoByte o))) ++
            change.toList ∧
        (∀ o, change = some o →
          d.changeAddress = some o.address ∧ o.datum = none ∧ o.scriptRef = none) ∧
        ∃ spent chosen : List Utxo, tx.body.inputs = OrdSet.ofList (spent.map Utxo.ref) ∧
          spent.Perm (d.pinned ++ chosen) ∧
          (s.select.Lawful → ∀ u ∈ chosen, pools.Spare d u) ∧
          (d.PinsByRef → s.select.Lawful → spent = pools.spent d tx) ∧
          ∀ id, d.gathered spent id ≤ UInt64.size - 1 → d.asked id < d.gathered spent id →
            ∃ o, change = some o ∧
              o.value.amount (.asset id) = d.gathered spent id - d.asked id := by
  obtain ⟨plan, state, made, ⟨a⟩⟩ := balance_ok h
  have planned := plan_ok made
  obtain ⟨chosen, perm, offered⟩ := (Plan.fund_ok a.funded).drawn
  refine ⟨a.carries, a.change, a.tx_outputs_eq planned, ?_, a.inputs, chosen, a.tx_inputs,
    planned.pinned ▸ perm, ?_, a.inputs_eq_spent planned,
    fun id => a.change_of_excess planned⟩
  · intro o change
    rw [a.settled.change_eq change]
    exact ⟨planned.changeAddress, rfl, rfl⟩
  · intro lawful u mem
    exact Pools.candidates_spare planned.candidates u ((offered lawful).subset mem)

end Balance

namespace Sample

def paring : List Intent :=
  [.changeAddress (.value (keyAddress 3)),
    .utxos [],
    .input { utxo := utxo 0 (keyAddress 1) (tokens 5000000 5) },
    .send (.value (keyAddress 2)) (tokens 0 3)]

theorem paring_passes : (run paring).satisfies (fun (w, tx) =>
    w.draft.gathered (w.pools.spent w.draft tx) token == 5 && w.draft.asked token == 3) = true := by
  decide +kernel

end Sample

theorem Balance.request_kept_paring : ∃ w tx o, Sample.run Sample.paring = .ok (w, tx) ∧
    tx.body.Carries w.draft ∧ o ∈ tx.body.outputs ∧
    w.draft.changeAddress = some o.address ∧ o.value.amount (.asset Sample.token) = 2 := by
  obtain ⟨⟨w, tx⟩, ran, passes⟩ := Except.satisfies_iff.mp Sample.paring_passes
  simp only [Bool.and_eq_true, beq_iff_eq] at passes
  obtain ⟨gathered, asked⟩ := passes
  obtain ⟨reachable, balanced⟩ := Sample.run_ok ran
  obtain ⟨carries, change, outputs, made, spent, _, _, _, _, same, excess⟩ := request_kept balanced
  obtain rfl := same reachable.pinsByRef Selection.largestFirst_lawful
  have excess := excess Sample.token
  rw [gathered, asked] at excess
  obtain ⟨o, found, amount⟩ := excess (by decide) (by decide)
  refine ⟨w, tx, o, ran, carries, ?_, (made o found).1, amount⟩
  rw [outputs, found]
  exact List.mem_append_right _ (List.mem_singleton.mpr rfl)

end ConwayTx
