import ConwayTx.Draft

namespace ConwayTx

structure Action where
  script : Option ScriptHash
  redeemer : Option PlutusData

structure Requirement where
  script : ScriptHash
  pointer : RedeemerPointer
  redeemer : Option PlutusData

namespace Requirement

/-- None where no script guards the action; then it takes no redeemer. -/
def ofAction (pointer : RedeemerPointer) (a : Action) : Except BuildError (Option Requirement) :=
  match a.script, a.redeemer with
  | some script, redeemer => .ok (some ⟨script, pointer, redeemer⟩)
  | none, some _ => .error (.strayRedeemer pointer)
  | none, none => .ok none

def ofActions (purpose : Purpose) (index : Nat) : List Action → Except BuildError (List Requirement)
  | [] => .ok []
  | a :: rest => do
    let first ← ofAction ⟨purpose, UInt32.ofNat index⟩ a
    let others ← ofActions purpose (index + 1) rest
    return first.toList ++ others

end Requirement

namespace Draft

/-- The actions of one kind, in the order in which a transaction lists them; `inputs` are those
that are spent, in the order of their references. -/
def actions (d : Draft) (inputs : List Utxo) : Purpose → List Action
  | .spend =>
    inputs.map (fun u => ⟨u.output.scriptHash?, (d.inputs.get? u.ref).bind Pinned.redeemer⟩)
  | .mint => d.mint.keys.map (fun policy => ⟨some policy, d.mintRedeemers.get? policy⟩)
  | .cert => d.certificates.map (fun c => ⟨c.action.scriptHash?, c.redeemer⟩)
  | .reward => d.withdrawals.toList.map (fun w => ⟨w.1.credential.scriptHash?, w.2.redeemer⟩)
  | .vote => d.votes.keys.map (fun voter => ⟨voter.scriptHash?, d.voteRedeemers.get? voter⟩)
  | .propose => d.proposals.map (fun p => ⟨p.action.action.policy?, p.redeemer⟩)

def requirements (d : Draft) (inputs : List Utxo) : Except BuildError (List Requirement) := do
  let groups ← Purpose.all.mapM (fun purpose =>
    Requirement.ofActions purpose 0 (d.actions inputs purpose))
  return groups.flatten

end Draft

end ConwayTx
