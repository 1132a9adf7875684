import ConwayTx.Json.Ledger
import ConwayTx.Params

namespace ConwayTx

open Json (record?)

namespace Ratio

def ofJson? (j : Json) : Option Ratio :=
  if !j.isReadable then none
  else
    match j with
    | .arr [.nat num, .nat den] => reduce? num den
    | .obj _ => do
      let r ← record? ["numerator", "denominator"] j
      reduce? (← r.required "numerator") (← r.required "denominator")
    | .nat n => ofFloat? n.toFloat
    | .neg n => ofFloat? n.toFloat
    | .float x => ofFloat? x
    | _ => none

instance : FromJson Ratio := ⟨ofJson?⟩

instance : ToJson Ratio := ⟨fun r => .arr [.nat r.num, .nat r.den]⟩

end Ratio

instance : ToJson Prices where
  toJson p := .obj [("memPrice", toJson p.mem), ("stepPrice", toJson p.step)]

instance : FromJson Prices where
  fromJson? j := do
    let r ← record? ["memPrice", "stepPrice"] j
    return ⟨← r.required "memPrice", ← r.required "stepPrice"⟩

instance : ToJson CostModels where
  toJson m := .obj [("PlutusV1", toJson m.v1), ("PlutusV2", toJson m.v2), ("PlutusV3", toJson m.v3)]

instance : FromJson CostModels where
  fromJson? j := do
    let r ← record? ["PlutusV1", "PlutusV2", "PlutusV3"] j
    return ⟨← r.withDefault "PlutusV1" none, ← r.withDefault "PlutusV2" none,
      ← r.withDefault "PlutusV3" none⟩

namespace Params

def fieldNames : List String :=
  ["minFeeA", "minFeeB", "maxTxSize", "maxValueSize", "keyDeposit", "poolDeposit", "drepDeposit",
    "govActionDeposit", "coinsPerUTxOByte", "collateralPercentage", "maxCollateralInputs",
    "executionPrices", "maxTxExUnits", "minFeeRefScriptCostPerByte", "costModels"]

instance : ToJson Params where
  toJson p :=
    .obj [("minFeeA", toJson p.feePerByte), ("minFeeB", toJson p.feeConstant),
      ("maxTxSize", toJson p.maxTxSize), ("maxValueSize", toJson p.maxValueSize),
      ("keyDeposit", toJson p.keyDeposit), ("poolDeposit", toJson p.poolDeposit),
      ("drepDeposit", toJson p.drepDeposit), ("govActionDeposit", toJson p.govActionDeposit),
      ("coinsPerUTxOByte", toJson p.coinsPerUtxoByte),
      ("collateralPercentage", toJson p.collateralPercentage),
      ("maxCollateralInputs", toJson p.maxCollateralInputs),
      ("executionPrices", toJson p.prices), ("maxTxExUnits", toJson p.maxTxUnits),
      ("minFeeRefScriptCostPerByte", toJson p.refScriptCostPerByte),
      ("costModels", toJson p.costModels)]

instance : FromJson Params where
  fromJson? j := do
    let r ← record? fieldNames j
    return {
      feePerByte := ← r.required "minFeeA"
      feeConstant := ← r.required "minFeeB"
      maxTxSize := ← r.required "maxTxSize"
      maxValueSize := ← r.required "maxValueSize"
      keyDeposit := ← r.required "keyDeposit"
      poolDeposit := ← r.required "poolDeposit"
      drepDeposit := ← r.required "drepDeposit"
      govActionDeposit := ← r.required "govActionDeposit"
      coinsPerUtxoByte := ← r.required "coinsPerUTxOByte"
      collateralPercentage := ← r.required "collateralPercentage"
      maxCollateralInputs := ← r.required "maxCollateralInputs"
      prices := ← r.required "executionPrices"
      maxTxUnits := ← r.required "maxTxExUnits"
      refScriptCostPerByte := ← r.required "minFeeRefScriptCostPerByte"
      costModels := ← r.withDefault "costModels" .none
    }

end Params

end ConwayTx
