import ConwayTx.Collateral
import ConwayTx.Witness.Resolution
/-!
Balancing: finding inputs, change and a fee such that the transaction pays for itself. The fee is
part of what it is paid for, so it is raised from round to round, until the price of the
transaction is no more than the fee it was made with.
-/

namespace ConwayTx

/-- Tells what the scripts of a transaction use, given the outputs it spends or references. -/
abbrev Evaluator := Tx → List Utxo → Except BuildError (List (RedeemerPointer × ExUnits))

structure Setup where
  params : Params
  config : Config
  select : Selector
  evaluate : Evaluator
  datums : DatumSource

namespace Balance

structure Plan where
  changeAddress : Address
  candidates : List Utxo
  pinned : List Utxo
  outputs : List TxOut
  implicit : Value
  deposits : UInt64
  committed : Value
  minimumFee : UInt64

def raise (coinsPerByte : UInt64) (o : TxOut) : TxOut :=
  let least := Fee.requiredLovelace coinsPerByte o
  if o.value.lovelace < least then o.withLovelace least else o

def exactSum (vs : List Value) : Except BuildError Value :=
  match vs.foldlM Value.checkedAdd Value.zero with
  | some v => .ok v
  | none => .error .spentOverflow

def orNotSet {α : Type} (what : Setting) : Option α → Except BuildError α
  | some a => .ok a
  | none => .error (.notSet what)

def plan (p : Params) (d : Draft) (pools : Pools) : Except BuildError Plan := do
  let changeAddress ← orNotSet .changeAddress d.changeAddress
  let candidates ← orNotSet .utxos (pools.candidates d)
  let outputs := d.outputs.map (raise p.coinsPerUtxoByte)
  let implicit ← d.implicitInput p
  let deposits ← d.deposits p
  let committed ←
    exactSum (outputs.map TxOut.value ++ [d.mint.burned, Value.ofLovelace deposits])
  return {
    changeAddress, candidates, outputs, implicit, deposits, committed
    pinned := d.pinned
    minimumFee := d.minimumFee.getD 0 }

def Plan.spend (plan : Plan) (fee : UInt64) : Except BuildError Value :=
  match plan.committed.checkedAdd (Value.ofLovelace fee) with
  | some v => .ok v
  | none => .error .spentOverflow

/-- By holding other assets, by lovelace and by reference. -/
def cost (u : Utxo) : List Nat :=
  u.value.hasAssets.toNat :: u.value.lovelace.toNat :: Ranked.rank u.ref

def cheapest? : List Utxo → Option Utxo
  | [] => none
  | u :: rest =>
    match cheapest? rest with
    | some v => if cost v < cost u then some v else some u
    | none => some u

/-- The inputs that are spent for the target, in the order of their references. A transaction
without inputs is not valid, so the cheapest is spent where none is needed. -/
def Plan.fund (plan : Plan) (select : Selector) (target : Value) : Except BuildError (List Utxo) :=
  match select plan.pinned plan.candidates target with
  | .error missing => .error (.inputsExhausted missing)
  | .ok s =>
    match plan.pinned ++ s.selected with
    | [] =>
      match cheapest? plan.candidates with
      | some u => .ok [u]
      | none => .error .nothingToSpend
    | inputs => .ok (Utxo.sortByRef inputs)

inductive Change
  | none
  | output (o : TxOut)
  | dust (lovelace : UInt64)
  | short (missing : UInt64)

def Change.of (coinsPerByte : UInt64) (address : Address) (value : Value) : Change :=
  let o : TxOut := { address := address, value := value }
  let least := Fee.requiredLovelace coinsPerByte o
  if value.isZero then none
  else if least ≤ value.lovelace then output o
  else if value.hasAssets then short (least - value.lovelace)
  else dust value.lovelace

structure Parts where
  inputs : List Utxo
  outputs : List TxOut
  fee : UInt64
  resolution : Resolution
  collateral : Option Collateral

namespace Parts

def refs (parts : Parts) : OrdSet OutRef := OrdSet.ofList (parts.inputs.map Utxo.ref)

def collateralRefs (parts : Parts) : OrdSet OutRef :=
  OrdSet.ofList ((parts.collateral.toList.flatMap Collateral.inputs).map Utxo.ref)

def signers (parts : Parts) : OrdSet KeyHash :=
  parts.resolution.keys.union (parts.collateral.toList.flatMap Collateral.keys)

def placeholders (parts : Parts) (padding : Nat) : List VKeyWitness :=
  (List.range (parts.signers.size + padding)).map VKeyWitness.placeholder

def body (parts : Parts) (d : Draft) (scriptDataHash : Option (Hash 32)) : TxBody where
  inputs := parts.refs
  outputs := parts.outputs
  fee := parts.fee
  ttl := d.invalidAfter
  certificates := d.certificates.map Guarded.action
  withdrawals := d.withdrawals.mapValues (fun _ w => w.action)
  auxiliaryDataHash := d.auxiliaryData.map Metadata.hash
  validityStart := d.invalidBefore
  mint := d.mint
  scriptDataHash := scriptDataHash
  collateral := parts.collateralRefs
  requiredSigners := d.requiredSigners
  network := d.network
  collateralReturn := parts.collateral.bind Collateral.change
  totalCollateral := parts.collateral.map Collateral.total
  referenceInputs := d.referenceInputs.mapValues (fun _ _ => ())
  votes := d.votes
  proposals := d.proposals.map Guarded.action

def assemble (parts : Parts) (p : Params) (d : Draft) : Except BuildError Tx := do
  let scriptDataHash ← parts.resolution.scriptDataHash p.costModels
  return {
    body := parts.body d scriptDataHash
    witnesses := { parts.resolution.witnesses with vkeys := parts.placeholders d.signerPadding }
    metadata := d.auxiliaryData }

def resolved (parts : Parts) (d : Draft) : List Utxo := parts.inputs ++ d.referenced

def refScriptBytes (parts : Parts) (d : Draft) : Nat :=
  (parts.resolved d).foldl (fun n u => n + (u.output.scriptRef.map Script.size).getD 0) 0

end Parts

structure Evaluated where
  refs : OrdSet OutRef
  budgets : Budgets

structure State where
  fee : UInt64
  changeExtra : UInt64 := 0
  evaluated : Option Evaluated := none

def checkUnits (p : Params) (units : ExUnits) : Except BuildError Unit :=
  if p.maxTxUnits.mem < units.mem ∨ p.maxTxUnits.steps < units.steps then
    .error (.unitsBeyond units p.maxTxUnits)
  else .ok ()

def checkValues (p : Params) : List TxOut → Except BuildError Unit
  | [] => .ok ()
  | o :: rest =>
    let size := o.value.toItem.encode.length
    if p.maxValueSize.toNat < size then .error (.valueTooLarge size p.maxValueSize)
    else checkValues p rest

def checkSize (p : Params) (tx : Tx) : Except BuildError Unit :=
  match tx.encode with
  | .error e => .error (.unencodable e)
  | .ok bs =>
    if p.maxTxSize.toNat < bs.length then .error (.txTooLarge bs.length p.maxTxSize) else .ok ()

def orOverflow : Option UInt64 → Except BuildError UInt64
  | some n => .ok n
  | none => .error .overflow

def checkBalance (plan : Plan) (inputs : List Utxo) (tx : Tx) : Except BuildError Unit := do
  let paid ← orOverflow (tx.body.fee.checkedAdd plan.deposits)
  let produced :=
    Value.sum (tx.body.outputs.map TxOut.value) + tx.body.mint.burned + Value.ofLovelace paid
  let consumed := Utxo.total inputs + plan.implicit
  if produced = consumed then .ok () else .error (.unbalanced consumed produced)

def finish (p : Params) (plan : Plan) (parts : Parts) (tx : Tx) : Except BuildError Tx := do
  checkUnits p parts.resolution.totalUnits
  checkValues p tx.body.outputs
  checkSize p tx
  checkBalance plan parts.inputs tx
  return { tx with witnesses := { tx.witnesses with vkeys := [] } }

/-- Fills in the budgets: those of an earlier evaluation of the same inputs, or else those of a
new one. A new evaluation sees the transaction with budgets that share the limit. -/
def evaluate (s : Setup) (d : Draft) (known : Option Evaluated) (parts : Parts) :
    Except BuildError (Parts × Option Evaluated) :=
  let reusable := known.filter (fun e => decide (e.refs = parts.refs))
  match reusable with
  | some e => do
    let resolution ← parts.resolution.withBudgets e.budgets
    return ({ parts with resolution := resolution }, known)
  | none =>
    let spread := { parts with resolution := parts.resolution.spread s.params.maxTxUnits }
    if parts.resolution.needsCollateral && s.config.evaluates then do
      let tx ← spread.assemble s.params d
      let budgets := OrdMap.ofList (← s.evaluate tx (parts.resolved d))
      let resolution ← spread.resolution.withBudgets budgets
      return ({ parts with resolution := resolution }, some ⟨parts.refs, budgets⟩)
    else .ok (spread, known)

def price (p : Params) (d : Draft) (plan : Plan) (parts : Parts) (tx : Tx) : UInt64 :=
  max (Fee.minimum p tx.size parts.resolution.totalUnits (parts.refScriptBytes d)) plan.minimumFee

def prepare (s : Setup) (d : Draft) (pools : Pools) (known : Option Evaluated) (inputs : List Utxo)
    (outputs : List TxOut) (fee : UInt64) : Except BuildError (Parts × Option Evaluated) := do
  let resolution ← d.resolve s.datums inputs
  let collateral ←
    if resolution.needsCollateral then (Collateral.select s.params s.config d pools fee).map some
    else .ok none
  evaluate s d known ⟨inputs, outputs, fee, resolution, collateral⟩

inductive Outcome
  | done (tx : Tx)
  | again (next : State)

def attempt (s : Setup) (d : Draft) (pools : Pools) (plan : Plan) (state : State)
    (inputs : List Utxo) (change : Option TxOut) (dust : UInt64) : Except BuildError Outcome := do
  let fee ← orOverflow (state.fee.checkedAdd dust)
  let (parts, known) ←
    prepare s d pools state.evaluated inputs (plan.outputs ++ change.toList) fee
  let tx ← parts.assemble s.params d
  let required := price s.params d plan parts tx
  if required ≤ state.fee then (finish s.params plan parts tx).map .done
  else return .again { state with fee := required, evaluated := known }

def round (s : Setup) (d : Draft) (pools : Pools) (plan : Plan) (state : State) :
    Except BuildError Outcome := do
  let spend ← plan.spend state.fee
  let target := (spend + Value.ofLovelace state.changeExtra).saturatingSub plan.implicit
  let inputs ← plan.fund s.select target
  match (Utxo.total inputs + plan.implicit).checkedSub spend with
  | none => .error (.cannotPay spend)
  | some rest =>
    match Change.of s.params.coinsPerUtxoByte plan.changeAddress rest with
    | .none => attempt s d pools plan state inputs none 0
    | .output o => attempt s d pools plan state inputs (some o) 0
    | .dust lovelace => attempt s d pools plan state inputs none lovelace
    | .short missing => do
      let changeExtra ← orOverflow (state.changeExtra.checkedAdd missing)
      return .again { state with changeExtra := changeExtra }

def rounds (s : Setup) (d : Draft) (pools : Pools) (plan : Plan) :
    (left : Nat) → State → Except BuildError Tx
  | 0, _ => .error (.unsettled s.config.maxRounds)
  | left + 1, state => do
    match ← round s d pools plan state with
    | .done tx => return tx
    | .again next => rounds s d pools plan left next

end Balance

def balance (s : Setup) (d : Draft) (pools : Pools) : Except BuildError Tx := do
  let plan ← Balance.plan s.params d pools
  Balance.rounds s d pools plan s.config.maxRounds.toNat { fee := plan.minimumFee }

end ConwayTx
