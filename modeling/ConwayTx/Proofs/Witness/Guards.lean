import ConwayTx.Proofs.Balance.Accepted
import ConwayTx.Proofs.Witness.Resolving

namespace ConwayTx

/-- The scripts that guard the actions of each kind, where one does, in the order of the body;
`spent` are the outputs that its inputs stand for. -/
def Tx.guards (tx : Tx) (spent : List Utxo) : Purpose → List (Option ScriptHash)
  | .spend => spent.map (fun u => u.output.scriptHash?)
  | .mint => tx.body.mint.keys.map some
  | .cert => tx.body.certificates.map Certificate.scriptHash?
  | .reward => tx.body.withdrawals.keys.map (fun account => account.credential.scriptHash?)
  | .vote => tx.body.votes.keys.map Voter.scriptHash?
  | .propose => tx.body.proposals.map (fun p => p.action.policy?)

namespace Witnesses

theorem native_addScript (scripts : List Script) (w : Witnesses) :
    (scripts.foldl addScript w).native.flatMap NativeScript.keysIn =
      w.native.flatMap NativeScript.keysIn ++ Draft.mentionedKeys scripts := by
  induction scripts generalizing w with
  | nil => simp [Draft.mentionedKeys]
  | cons s rest ih =>
    rw [List.foldl_cons, ih]
    cases s with
    | native n => simp [addScript, Draft.mentionedKeys]
    | plutus language code => cases language <;> simp [addScript, Draft.mentionedKeys]

theorem addScript_others (scripts : List Script) (w : Witnesses) :
    (scripts.foldl addScript w).redeemers = w.redeemers ∧
      (scripts.foldl addScript w).datums = w.datums := by
  induction scripts generalizing w with
  | nil => exact ⟨rfl, rfl⟩
  | cons s rest ih =>
    obtain ⟨redeemers, datums⟩ := ih (w.addScript s)
    rw [List.foldl_cons, redeemers, datums]
    cases s with
    | native n => exact ⟨rfl, rfl⟩
    | plutus language code => cases language <;> exact ⟨rfl, rfl⟩

end Witnesses

namespace Balance.Accepted

variable {s : Setup} {d : Draft} {pools : Pools} {plan : Plan} {state : State} {tx : Tx}
  (a : Accepted s d pools plan state tx)
include a

theorem actions_script (purpose : Purpose) :
    (d.actions a.inputs purpose).map Action.script = tx.guards a.inputs purpose := by
  cases purpose with
  | spend => simp [Draft.actions, Tx.guards]
  | mint => simp [Draft.actions, Tx.guards, a.tx_mint]
  | cert => simp [Draft.actions, Tx.guards, a.tx_certificates]
  | reward =>
    rw [Tx.guards, a.tx_withdrawals, OrdMap.keys_mapValues]
    simp [Draft.actions, OrdMap.keys]
  | vote => simp [Draft.actions, Tx.guards, a.tx_votes]
  | propose => simp [Draft.actions, Tx.guards, a.tx_proposals]

theorem resolves :
    ∃ r, Nonempty (d.Resolves a.inputs r) ∧ a.parts.resolution.unpriced = r.unpriced := by
  obtain ⟨r, resolved, same⟩ := a.prepared.resolved
  exact ⟨r, Draft.resolve_ok resolved, same⟩

theorem requirements_script {r : Resolution} (resolves : d.Resolves a.inputs r) :
    resolves.requirements.map Requirement.script =
      (Purpose.all.flatMap (tx.guards a.inputs)).filterMap id := by
  rw [resolves.listed, List.map_flatMap, List.filterMap_flatMap]
  congr 1
  funext purpose
  rw [Requirement.listed_script, a.actions_script]

theorem required_iff_guards {r : Resolution} (resolves : d.Resolves a.inputs r) {h : ScriptHash} :
    (∃ q ∈ resolves.requirements, q.script = h) ↔
      some h ∈ Purpose.all.flatMap (tx.guards a.inputs) := by
  rw [← List.mem_map, a.requirements_script resolves, List.mem_filterMap]
  simp

theorem tx_redeemers : tx.witnesses.redeemers = a.parts.resolution.redeemers := by
  rw [a.tx_witnesses]
  exact (Witnesses.addScript_others _ _).1

theorem tx_datums : tx.witnesses.datums = a.parts.resolution.datums := by
  rw [a.tx_witnesses]
  exact (Witnesses.addScript_others _ _).2

theorem tx_native :
    tx.witnesses.native.flatMap NativeScript.keysIn =
      Draft.mentionedKeys a.parts.resolution.scripts := by
  rw [a.tx_witnesses]
  exact Witnesses.native_addScript _ _

end Balance.Accepted

end ConwayTx
