import ConwayTx.Intent

namespace ConwayTx

abbrev Steps (α : Type) := EStateM BuildError Work α

namespace Steps

def demand {α : Type} : Except BuildError α → Steps α
  | .ok a => pure a
  | .error e => throw e

def draft (f : Draft → Draft) : Steps Unit := modify (·.onDraft f)

def noteScript (s : Script) : Steps Unit := modify (fun w => { w with flags := w.flags.note s })

def noteScriptRef (u : Utxo) : Steps Unit :=
  match u.output.scriptRef with
  | some s => noteScript s
  | none => pure ()

def addOutput (o : TxOut) : Steps Unit := draft (fun d => { d with outputs := d.outputs ++ [o] })

def addLocked (a : Address) (v : Value) (attached : Option Datum) : Steps Unit := do
  if !a.isScript then throw .notScriptAddress
  addOutput { address := a, value := v, datum := attached }

def certify (redeemer : Option PlutusData) (c : Certificate) : Steps Unit :=
  draft (·.addCertificate c redeemer)

def mint (f : Mint → Mint) : Steps Unit := draft (fun d => { d with mint := f d.mint })

def mintRedeemers (f : OrdMap PolicyId PlutusData → OrdMap PolicyId PlutusData) : Steps Unit :=
  draft (fun d => { d with mintRedeemers := f d.mintRedeemers })

def addInput (p : Pinned) : Steps Unit := do
  noteScriptRef p.utxo
  if let some data := p.datum then draft (·.addDatum data)
  draft (fun d => { d with inputs := d.inputs.insert p.utxo.ref p })

/-- The policy gets its place before the amount is known to fit. -/
def addMint (policy : PolicyId) (name : AssetName) (amount : Int64)
    (redeemer : Option PlutusData) : Steps Unit := do
  if amount = 0 then throw .zeroMint
  mint (fun m => m.insert policy ((m.get? policy).getD ∅))
  match ((← get).draft.mint.quantity policy name).checkedAdd amount with
  | none => throw (.mintOverflow policy name)
  | some total =>
    mint (fun m => m.insert policy (Draft.setMinted ((m.get? policy).getD ∅) name total))
    if (((← get).draft.mint.get? policy).getD ∅).isEmpty then
      mint (·.erase policy)
      mintRedeemers (·.erase policy)
    else if let some data := redeemer then
      mintRedeemers (·.insert policy data)

def addVote (voter : Voter) (action : GovActionId) (procedure : VotingProcedure)
    (redeemer : Option PlutusData) : Steps Unit := do
  draft (fun d => { d with
    votes := d.votes.insert voter (((d.votes.get? voter).getD ∅).insert action procedure) })
  if let some data := redeemer then
    draft (fun d => { d with voteRedeemers := d.voteRedeemers.insert voter data })

end Steps

namespace Intent

open Steps

def steps (p : Params) : Intent → Steps Unit
  | network n => draft (fun d => { d with network := some n })
  | minimumFee fee => draft (fun d => { d with minimumFee := some fee })
  | invalidBefore m =>
    modify (fun w => w.onDraft (fun d => { d with invalidBefore := some (m.toSlot w.genesis) }))
  | invalidAfter m =>
    modify (fun w => w.onDraft (fun d => { d with invalidAfter := some (m.toSlot w.genesis) }))
  | genesis g => modify (fun w => { w with genesis := g })
  | changeAddress a => do
    let a ← demand a.address
    draft (fun d => { d with changeAddress := some a })
  | collateralChangeAddress a => do
    let a ← demand a.address
    draft (fun d => { d with collateralChangeAddress := some a })
  | utxos us => modify (fun w => { w with pools := { w.pools with available := some us } })
  | collateralUtxos us =>
    modify (fun w => { w with pools := { w.pools with collateral := some us } })
  | send payee v => do
    let a ← demand payee.address
    addOutput { address := a, value := v }
  | lock payee v attached => do
    let a ← demand payee.address
    addLocked a v attached
  | output o => addOutput o
  | input pin => do
    if pin.redeemer.isSome then demand (← get).readyToRun
    addInput pin
  | referenceInput u => do
    noteScriptRef u
    draft (·.addReferenceInput u)
  | .mint policy name amount redeemer => do
    let policy ← demand policy.policy
    let name ← demand name.assetName
    addMint policy name amount redeemer
  | mintAsset id amount redeemer => do
    let id ← demand id.asset
    addMint id.policy id.name amount redeemer
  | script s => do
    noteScript s
    draft (·.addScript s)
  | datum data => draft (·.addDatum data)
  | signer key => do
    let key ← demand key.keyHash
    draft (fun d => { d with requiredSigners := d.requiredSigners.add key })
  | padSigners count => draft (fun d => { d with signerPadding := count })
  | certificate c redeemer => certify redeemer c
  | register account redeemer => do
    let a ← demand account.account
    certify redeemer (.registration a p.keyDeposit)
  | deregister account redeemer => do
    let a ← demand account.account
    certify redeemer (.deregistration a p.keyDeposit)
  | delegateStake account pool redeemer => do
    let a ← demand account.account
    let pool ← demand pool.pool
    certify redeemer (.stakeDelegation a pool)
  | delegateVote account drep redeemer => do
    let a ← demand account.account
    let drep ← demand drep.drep
    certify redeemer (.voteDelegation a drep)
  | registerDRep drep anchor redeemer => do
    let c ← demand drep.drepCredential
    certify redeemer (.drepRegistration c p.drepDeposit anchor)
  | updateDRep drep anchor redeemer => do
    let c ← demand drep.drepCredential
    certify redeemer (.drepUpdate c anchor)
  | deregisterDRep drep redeemer => do
    let c ← demand drep.drepCredential
    certify redeemer (.drepDeregistration c p.drepDeposit)
  | vote voter action procedure redeemer => addVote voter action procedure redeemer
  | propose proposal redeemer => draft (·.addProposal proposal redeemer)
  | proposeAction account action anchor redeemer =>
    draft (·.addProposal ⟨p.govActionDeposit, account, action, anchor⟩ redeemer)
  | withdraw account amount redeemer => do
    let a ← demand account.account
    draft (fun d => { d with withdrawals := d.withdrawals.insert a ⟨amount, redeemer⟩ })
  | metadata label m => do
    let m ← demand m.metadatum
    draft (fun d => { d with metadata := d.metadata.insert label m })

end Intent

end ConwayTx
