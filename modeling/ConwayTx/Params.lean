import ConwayTx.Ratio
import ConwayTx.Redeemer

namespace ConwayTx

open Cbor (Item)

abbrev CostModel := List Int64

structure CostModels where
  v1 : Option CostModel
  v2 : Option CostModel
  v3 : Option CostModel
  deriving DecidableEq

namespace CostModels

def none : CostModels := ⟨.none, .none, .none⟩

def get? (m : CostModels) : Language → Option CostModel
  | .v1 => m.v1
  | .v2 => m.v2
  | .v3 => m.v3

def costItems (model : CostModel) : List Item := model.map (fun c => Item.ofInt c.toInt)

/-- One entry of the views. The first language keeps its older form: key and value are both
wrapped in byte strings, and the costs are a list of indefinite length. -/
def viewEntry (l : Language) (model : CostModel) : Item × Item :=
  match l with
  | .v1 => (.bytes [0], .bytes (Item.stream (costItems model)).encode)
  | l => (.ofNat l.costModelKey, .array model.length (costItems model))

/-- The order of the views: shorter keys come first. -/
def viewOrder : List Language := [.v2, .v3, .v1]

def languageViews (m : CostModels) (languages : OrdSet Language) : Except Language Bytes := do
  let ordered := viewOrder.filter languages.contains
  let entries ← ordered.mapM (fun l =>
    match m.get? l with
    | some model => .ok (viewEntry l model)
    | .none => .error l)
  return (Item.map ordered.length entries).encode

end CostModels

structure Prices where
  mem : Ratio
  step : Ratio
  deriving DecidableEq

structure Params where
  feePerByte : UInt64
  feeConstant : UInt64
  maxTxSize : UInt32
  maxValueSize : UInt32
  keyDeposit : UInt64
  poolDeposit : UInt64
  drepDeposit : UInt64
  govActionDeposit : UInt64
  coinsPerUtxoByte : UInt64
  collateralPercentage : UInt32
  maxCollateralInputs : UInt32
  prices : Prices
  maxTxUnits : ExUnits
  refScriptCostPerByte : Ratio
  costModels : CostModels
  deriving DecidableEq

namespace Params

def mainnet : Params where
  feePerByte := 44
  feeConstant := 155381
  maxTxSize := 16384
  maxValueSize := 5000
  keyDeposit := 2000000
  poolDeposit := 500000000
  drepDeposit := 500000000
  govActionDeposit := 100000000000
  coinsPerUtxoByte := 4310
  collateralPercentage := 150
  maxCollateralInputs := 3
  prices := ⟨⟨577, 10000, by decide⟩, ⟨721, 10000000, by decide⟩⟩
  maxTxUnits := ⟨14000000, 10000000000⟩
  refScriptCostPerByte := .ofWord 15
  costModels := .none

instance : Inhabited Params := ⟨mainnet⟩

end Params

end ConwayTx
