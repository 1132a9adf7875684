import ConwayTx.Address.Text
import ConwayTx.Draft
import ConwayTx.Metadata.NoSchema
import ConwayTx.Slots
import ConwayTx.Witness.Resolution

namespace ConwayTx

inductive Given (α : Type)
  | value (a : α)
  | text (s : String)

namespace Given

def read {α ε : Type} (parse : String → Except ε α) (refuse : ε → BuildError) :
    Given α → Except BuildError α
  | value a => .ok a
  | text s =>
    match parse s with
    | .ok a => .ok a
    | .error e => .error (refuse e)

def address : Given Address → Except BuildError Address := read Address.ofText .address

def account : Given StakeAddress → Except BuildError StakeAddress :=
  read StakeAddress.ofText .rewardAddress

def pool : Given PoolId → Except BuildError PoolId := read PoolId.ofText .poolId

def drepCredential : Given Credential → Except BuildError Credential :=
  read DRep.credentialOfText .drepId

def drepOfText (s : String) : Except Bech32Error DRep :=
  if s = "abstain" then .ok .abstain
  else if s = "no_confidence" then .ok .noConfidence
  else DRep.ofText s

def drep : Given DRep → Except BuildError DRep := read drepOfText .drepId

def policy : Given PolicyId → Except BuildError PolicyId := read Hash.ofHex .policyId

def keyHash : Given KeyHash → Except BuildError KeyHash := read Hash.ofHex .keyHash

def assetName : Given AssetName → Except BuildError AssetName := read AssetName.ofHex .assetName

def asset : Given AssetId → Except BuildError AssetId := read AssetId.ofHex .assetId

def metadatum : Given Metadatum → Except BuildError Metadatum := read Metadatum.ofText .metadata

end Given

inductive Moment
  | slot (n : UInt64)
  | time (seconds : UInt64)
  deriving DecidableEq, Repr

def Moment.toSlot (g : Genesis) : Moment → UInt64
  | slot n => n
  | time seconds => g.timestampToSlot seconds

inductive Intent
  | network (n : Network)
  | minimumFee (fee : UInt64)
  | invalidBefore (m : Moment)
  | invalidAfter (m : Moment)
  | genesis (g : Genesis)
  | changeAddress (a : Given Address)
  | collateralChangeAddress (a : Given Address)
  | utxos (us : List Utxo)
  | collateralUtxos (us : List Utxo)
  | send (payee : Given Address) (v : Value)
  | lock (payee : Given Address) (v : Value) (datum : Option Datum)
  | output (o : TxOut)
  | input (p : Pinned)
  | referenceInput (u : Utxo)
  | mint (policy : Given PolicyId) (name : Given AssetName) (amount : Int64)
      (redeemer : Option PlutusData)
  | mintAsset (id : Given AssetId) (amount : Int64) (redeemer : Option PlutusData)
  | script (s : Script)
  | datum (data : PlutusData)
  | signer (key : Given KeyHash)
  | padSigners (count : Nat)
  | certificate (c : Certificate) (redeemer : Option PlutusData)
  | register (account : Given StakeAddress) (redeemer : Option PlutusData)
  | deregister (account : Given StakeAddress) (redeemer : Option PlutusData)
  | delegateStake (account : Given StakeAddress) (pool : Given PoolId)
      (redeemer : Option PlutusData)
  | delegateVote (account : Given StakeAddress) (drep : Given DRep) (redeemer : Option PlutusData)
  | registerDRep (drep : Given Credential) (anchor : Option Anchor) (redeemer : Option PlutusData)
  | updateDRep (drep : Given Credential) (anchor : Option Anchor) (redeemer : Option PlutusData)
  | deregisterDRep (drep : Given Credential) (redeemer : Option PlutusData)
  | vote (voter : Voter) (action : GovActionId) (procedure : VotingProcedure)
      (redeemer : Option PlutusData)
  | propose (p : Proposal) (redeemer : Option PlutusData)
  | proposeAction (account : StakeAddress) (action : GovAction) (anchor : Anchor)
      (redeemer : Option PlutusData)
  | withdraw (account : Given StakeAddress) (amount : UInt64) (redeemer : Option PlutusData)
  | metadata (label : UInt64) (m : Given Metadatum)

structure Work where
  genesis : Genesis
  draft : Draft := {}
  pools : Pools := {}
  flags : LanguageFlags := {}

namespace Work

def onDraft (w : Work) (f : Draft → Draft) : Work := { w with draft := f w.draft }

def noteScriptRef (w : Work) (u : Utxo) : Work :=
  match u.output.scriptRef with
  | some s => { w with flags := w.flags.note s }
  | none => w

def addOutput (w : Work) (o : TxOut) : Work :=
  w.onDraft (fun d => { d with outputs := d.outputs ++ [o] })

def certify (w : Work) (redeemer : Option PlutusData) (c : Certificate) : Work :=
  w.onDraft (·.addCertificate c redeemer)

def readyToRun (w : Work) : Except BuildError Unit :=
  if w.pools.collateral.isNone then .error (.notSet .collateralUtxos)
  else if w.draft.collateralChangeAddress.isNone then .error (.notSet .collateralChangeAddress)
  else .ok ()

end Work

namespace Intent

def perform (p : Params) (w : Work) : Intent → Except BuildError Work
  | network n => .ok (w.onDraft (fun d => { d with network := some n }))
  | minimumFee fee => .ok (w.onDraft (fun d => { d with minimumFee := some fee }))
  | invalidBefore m =>
    .ok (w.onDraft (fun d => { d with invalidBefore := some (m.toSlot w.genesis) }))
  | invalidAfter m =>
    .ok (w.onDraft (fun d => { d with invalidAfter := some (m.toSlot w.genesis) }))
  | genesis g => .ok { w with genesis := g }
  | changeAddress a =>
    a.address.map (fun a => w.onDraft (fun d => { d with changeAddress := some a }))
  | collateralChangeAddress a =>
    a.address.map (fun a => w.onDraft (fun d => { d with collateralChangeAddress := some a }))
  | utxos us => .ok { w with pools := { w.pools with available := some us } }
  | collateralUtxos us => .ok { w with pools := { w.pools with collateral := some us } }
  | send payee v => payee.address.map (fun a => w.addOutput { address := a, value := v })
  | lock payee v attached => do
    let a ← payee.address
    if a.isScript then .ok (w.addOutput { address := a, value := v, datum := attached })
    else .error .notScriptAddress
  | output o => .ok (w.addOutput o)
  | input pin => do
    if pin.redeemer.isSome then w.readyToRun
    return (w.noteScriptRef pin.utxo).onDraft (·.addInput pin)
  | referenceInput u => .ok ((w.noteScriptRef u).onDraft (·.addReferenceInput u))
  | mint policy name amount redeemer => do
    let policy ← policy.policy
    let name ← name.assetName
    let d ← w.draft.addMint policy name amount redeemer
    return { w with draft := d }
  | mintAsset id amount redeemer => do
    let id ← id.asset
    let d ← w.draft.addMint id.policy id.name amount redeemer
    return { w with draft := d }
  | script s => .ok (({ w with flags := w.flags.note s } : Work).onDraft (·.addScript s))
  | datum data => .ok (w.onDraft (·.addDatum data))
  | signer key =>
    key.keyHash.map (fun key =>
      w.onDraft (fun d => { d with requiredSigners := d.requiredSigners.add key }))
  | padSigners count => .ok (w.onDraft (fun d => { d with signerPadding := count }))
  | certificate c redeemer => .ok (w.certify redeemer c)
  | register account redeemer =>
    account.account.map (fun a => w.certify redeemer (.registration a p.keyDeposit))
  | deregister account redeemer =>
    account.account.map (fun a => w.certify redeemer (.deregistration a p.keyDeposit))
  | delegateStake account pool redeemer => do
    let a ← account.account
    let pool ← pool.pool
    return w.certify redeemer (.stakeDelegation a pool)
  | delegateVote account drep redeemer => do
    let a ← account.account
    let drep ← drep.drep
    return w.certify redeemer (.voteDelegation a drep)
  | registerDRep drep anchor redeemer =>
    drep.drepCredential.map (fun c => w.certify redeemer (.drepRegistration c p.drepDeposit anchor))
  | updateDRep drep anchor redeemer =>
    drep.drepCredential.map (fun c => w.certify redeemer (.drepUpdate c anchor))
  | deregisterDRep drep redeemer =>
    drep.drepCredential.map (fun c => w.certify redeemer (.drepDeregistration c p.drepDeposit))
  | vote voter action procedure redeemer =>
    .ok (w.onDraft (·.addVote voter action procedure redeemer))
  | propose proposal redeemer => .ok (w.onDraft (·.addProposal proposal redeemer))
  | proposeAction account action anchor redeemer =>
    .ok (w.onDraft (·.addProposal ⟨p.govActionDeposit, account, action, anchor⟩ redeemer))
  | withdraw account amount redeemer =>
    account.account.map (fun a =>
      w.onDraft (fun d => { d with withdrawals := d.withdrawals.insert a ⟨amount, redeemer⟩ }))
  | metadata label m =>
    m.metadatum.map (fun m =>
      w.onDraft (fun d => { d with metadata := d.metadata.insert label m }))

end Intent

end ConwayTx
