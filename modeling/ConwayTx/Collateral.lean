import ConwayTx.Config
import ConwayTx.Draft
import ConwayTx.Fee
import ConwayTx.Selection

namespace ConwayTx

structure Collateral where
  inputs : List Utxo
  total : UInt64
  change : Option TxOut

namespace Collateral

/-- Only lovelace before other assets, then more lovelace before less. -/
def before (a b : Utxo) : Bool :=
  match a.value.hasAssets, b.value.hasAssets with
  | false, true => true
  | true, false => false
  | _, _ => Utxo.atLeast Value.lovelace a b

def candidates (pool : List Utxo) : List Utxo :=
  (pool.filter (fun u => !u.output.address.isScript)).mergeSort before

/-- How to take `required` lovelace out of `value`: what is forfeited in all and what comes back.
What is too little to come back is forfeited too, unless it carries assets. -/
def split? (coinsPerByte : UInt64) (address : Address) (required : UInt64) (value : Value) :
    Option (UInt64 × Option TxOut) :=
  let rest := value.saturatingSub (Value.ofLovelace required)
  let change : TxOut := { address := address, value := rest }
  if value.lovelace < required then none
  else if rest.isZero then some (required, none)
  else if Fee.requiredLovelace coinsPerByte change ≤ rest.lovelace then some (required, some change)
  else if !rest.hasAssets then some (value.lovelace, none)
  else none

def gather (split : Value → Option (UInt64 × Option TxOut)) (taken : List Utxo) (total : Value) :
    List Utxo → Option Collateral
  | [] => none
  | u :: rest =>
    match split (total + u.value) with
    | some (forfeited, change) => some ⟨taken ++ [u], forfeited, change⟩
    | none => gather split (taken ++ [u]) (total + u.value) rest

def required (p : Params) (c : Config) (fee : UInt64) : Except BuildError UInt64 :=
  match (Fee.collateral p fee).checkedAdd c.collateralMargin with
  | some n => .ok n
  | none => .error .overflow

def select (p : Params) (c : Config) (d : Draft) (pools : Pools) (fee : UInt64) :
    Except BuildError Collateral :=
  match pools.collateral, d.collateralChangeAddress with
  | none, _ => .error (.notSet .collateralUtxos)
  | some _, none => .error (.notSet .collateralChangeAddress)
  | some pool, some address => do
    let required ← required p c fee
    let offered := (candidates pool).take p.maxCollateralInputs.toNat
    match gather (split? p.coinsPerUtxoByte address required) [] Value.zero offered with
    | some collateral => .ok collateral
    | none => .error (.collateralShort required)

def keys (c : Collateral) : List KeyHash :=
  c.inputs.filterMap (fun u => u.output.address.paymentCredential?.bind Credential.keyHash?)

end Collateral

end ConwayTx
