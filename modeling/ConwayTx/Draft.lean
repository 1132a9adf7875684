import ConwayTx.BuildError
import ConwayTx.Params
import ConwayTx.Tx.Basic

namespace ConwayTx

structure Pinned where
  utxo : Utxo
  redeemer : Option PlutusData := none
  datum : Option PlutusData := none

structure Guarded (α : Type) where
  action : α
  redeemer : Option PlutusData := none

structure Draft where
  outputs : List TxOut := []
  minimumFee : Option UInt64 := none
  invalidBefore : Option UInt64 := none
  invalidAfter : Option UInt64 := none
  network : Option Network := none
  certificates : List (Guarded Certificate) := []
  withdrawals : OrdMap StakeAddress (Guarded UInt64) := ∅
  mint : Mint := ∅
  mintRedeemers : OrdMap PolicyId PlutusData := ∅
  requiredSigners : OrdSet KeyHash := ∅
  signerPadding : Nat := 0
  votes : Votes := ∅
  voteRedeemers : OrdMap Voter PlutusData := ∅
  proposals : List (Guarded Proposal) := []
  scripts : OrdMap ScriptHash Script := ∅
  datums : OrdMap DatumHash PlutusData := ∅
  metadata : Metadata := ∅
  inputs : OrdMap OutRef Pinned := ∅
  referenceInputs : OrdMap OutRef Utxo := ∅
  changeAddress : Option Address := none
  collateralChangeAddress : Option Address := none

def Total.sum (total : Total) (amounts : List UInt64) : Except BuildError UInt64 :=
  match amounts.foldlM UInt64.checkedAdd 0 with
  | some sum => .ok sum
  | none => .error (.totalOverflow total)

namespace Draft

def setMinted (names : OrdMap AssetName Int64) (name : AssetName) (total : Int64) :
    OrdMap AssetName Int64 :=
  if total = 0 then names.erase name else names.insert name total

/-- Adds to what is minted, or burned where the amount is negative. A policy that names nothing
any more goes, and its redeemer with it. -/
def addMint (d : Draft) (policy : PolicyId) (name : AssetName) (amount : Int64)
    (redeemer : Option PlutusData) : Except BuildError Draft :=
  if amount = 0 then .error .zeroMint
  else
    match (d.mint.quantity policy name).checkedAdd amount with
    | none => .error (.mintOverflow policy name)
    | some total =>
      let names := setMinted ((d.mint.get? policy).getD ∅) name total
      if names.isEmpty then
        .ok { d with
          mint := d.mint.erase policy
          mintRedeemers := d.mintRedeemers.erase policy }
      else
        .ok { d with
          mint := d.mint.insert policy names
          mintRedeemers :=
            match redeemer with
            | some data => d.mintRedeemers.insert policy data
            | none => d.mintRedeemers }

def addCertificate (d : Draft) (certificate : Certificate) (redeemer : Option PlutusData) : Draft :=
  { d with certificates := d.certificates ++ [⟨certificate, redeemer⟩] }

def addVote (d : Draft) (voter : Voter) (action : GovActionId) (procedure : VotingProcedure)
    (redeemer : Option PlutusData) : Draft :=
  { d with
    votes := d.votes.insert voter (((d.votes.get? voter).getD ∅).insert action procedure)
    voteRedeemers :=
      match redeemer with
      | some data => d.voteRedeemers.insert voter data
      | none => d.voteRedeemers }

def addProposal (d : Draft) (proposal : Proposal) (redeemer : Option PlutusData) : Draft :=
  { d with proposals := d.proposals ++ [⟨proposal, redeemer⟩] }

def addScript (d : Draft) (s : Script) : Draft := { d with scripts := d.scripts.insert s.hash s }

def addDatum (d : Draft) (data : PlutusData) : Draft :=
  { d with datums := d.datums.insert data.hash data }

def addInput (d : Draft) (p : Pinned) : Draft :=
  let attached := match p.datum with | some data => d.addDatum data | none => d
  { attached with inputs := attached.inputs.insert p.utxo.ref p }

def addReferenceInput (d : Draft) (u : Utxo) : Draft :=
  { d with referenceInputs := d.referenceInputs.insert u.ref u }

def pinned (d : Draft) : List Utxo := d.inputs.values.map Pinned.utxo

def referenced (d : Draft) : List Utxo := d.referenceInputs.values

def deposits (d : Draft) (p : Params) : Except BuildError UInt64 :=
  Total.deposits.sum (d.certificates.map (·.action.deposit p.keyDeposit) ++
    d.proposals.map (·.action.deposit))

def refunds (d : Draft) (p : Params) : Except BuildError UInt64 :=
  Total.refunds.sum (d.certificates.map (·.action.refund p.keyDeposit))

def withdrawalTotal (d : Draft) : Except BuildError UInt64 :=
  Total.withdrawals.sum (d.withdrawals.values.map Guarded.action)

def implicitInput (d : Draft) (p : Params) : Except BuildError Value := do
  let refunds ← d.refunds p
  let withdrawn ← d.withdrawalTotal
  let lovelace ← Total.implicitInput.sum [refunds, withdrawn]
  match d.mint.minted.checkedAdd (Value.ofLovelace lovelace) with
  | some v => .ok v
  | none => .error .implicitOverflow

def auxiliaryData (d : Draft) : Option Metadata :=
  if d.metadata.isEmpty then none else some d.metadata

end Draft

structure Pools where
  available : Option (List Utxo) := none
  collateral : Option (List Utxo) := none

namespace Pools

def distinctFrom (seen : List OutRef) : List Utxo → List Utxo
  | [] => []
  | u :: rest =>
    if u.ref ∈ seen then distinctFrom seen rest else u :: distinctFrom (u.ref :: seen) rest

def collateralRefs (p : Pools) : OrdSet OutRef :=
  OrdSet.ofList ((p.collateral.getD []).map Utxo.ref)

/-- True for outputs that may be selected: not pinned, not referenced, not kept for collateral and
not guarded by a script. -/
def selectable (p : Pools) (d : Draft) (u : Utxo) : Bool :=
  !d.inputs.contains u.ref && !d.referenceInputs.contains u.ref &&
    !p.collateralRefs.contains u.ref && !u.output.address.isScript

def candidates (p : Pools) (d : Draft) : Option (List Utxo) :=
  p.available.map (fun us => distinctFrom [] (us.filter (p.selectable d)))

end Pools

end ConwayTx
