import ConwayTx.Balance
import ConwayTx.Slots

namespace ConwayTx

inductive ChainError
  | sharedAsset (id : AssetId)
  | unknownOutput (ref : OutRef)
  | noEvaluator
  | cannotSubmit
  | cannotFollow (id : TxHash)
  deriving DecidableEq

def ChainError.message : ChainError → String
  | sharedAsset id => s!"asset {id.toHex} is held by more than one output"
  | unknownOutput ref => s!"unknown output {ref.toText}"
  | noEvaluator => "offline provider has no script evaluator"
  | cannotSubmit => "offline provider cannot submit transactions"
  | cannotFollow id => s!"offline provider cannot follow transaction {id.toHex}"

structure Chain where
  params : Params
  networkMagic : UInt32
  utxos : List Utxo := []
  datums : OrdMap DatumHash PlutusData := ∅
  rewards : OrdMap StakeAddress UInt64 := ∅
  budget : Option ExUnits := none

namespace Chain

def addDatum (c : Chain) (data : PlutusData) : Chain :=
  { c with datums := c.datums.insert data.hash data }

def unspentAt (c : Chain) (address : Address) : List Utxo :=
  c.utxos.filter (fun u => u.output.address == address)

def unspentWith (c : Chain) (address : Address) (id : AssetId) : List Utxo :=
  (c.unspentAt address).filter (fun u => 0 < u.value.quantity id)

def holder (c : Chain) (id : AssetId) : Except ChainError (Option Utxo) :=
  match c.utxos.filter (fun u => 0 < u.value.quantity id) with
  | [] => .ok none
  | [u] => .ok (some u)
  | _ => .error (.sharedAsset id)

def resolve (c : Chain) (refs : List OutRef) : Except ChainError (List Utxo) :=
  refs.mapM (fun ref =>
    match c.utxos.find? (fun u => u.ref == ref) with
    | some u => .ok u
    | none => .error (.unknownOutput ref))

def datum? (c : Chain) : DatumSource := c.datums.get?

def reward (c : Chain) (account : StakeAddress) : UInt64 := (c.rewards.get? account).getD 0

def evaluate (c : Chain) (tx : Tx) (_ : List Utxo) :
    Except ChainError (List (RedeemerPointer × ExUnits)) :=
  match c.budget with
  | some units => .ok (tx.witnesses.redeemers.map (fun r => (r.pointer, units)))
  | none => .error .noEvaluator

def submit (_ : Chain) (_ : Bytes) : Except ChainError TxHash := .error .cannotSubmit

def await (_ : Chain) (id : TxHash) : Except ChainError Bool := .error (.cannotFollow id)

def evaluator (c : Chain) : Evaluator := fun tx utxos =>
  match c.evaluate tx utxos with
  | .ok units => .ok units
  | .error e => .error (.evaluation e.message)

end Chain

end ConwayTx
