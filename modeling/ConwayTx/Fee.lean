import ConwayTx.Params
import ConwayTx.Utxo
/-!
What a transaction has to pay, what an output has to hold and what collateral has to cover.
Amounts beyond a word count as the largest word. Costs are exact rationals, also where a ratio of
two words of 128 bits would overflow, which at a price of 15 it would from about 1.1 MB of reference
scripts on.
-/

namespace ConwayTx.Fee

def linear (p : Params) (size : Nat) : UInt64 :=
  (p.feePerByte.saturatingMul (UInt64.clamp size)).saturatingAdd p.feeConstant

def unitCost (prices : Prices) (units : ExUnits) : Rat :=
  prices.mem.toRat * units.mem.toNat + prices.step.toRat * units.steps.toNat

/-- The price of a budget, rounded up once over the exact sum. -/
def script (prices : Prices) (units : ExUnits) : UInt64 :=
  UInt64.clamp (unitCost prices units).ceil.toNat

def tierSize : Nat := 25600

/-- The exact price of reference scripts; every tier costs 6/5 of the one before. -/
def tieredCost (price : Rat) (bytes : Nat) : Rat :=
  if bytes < tierSize then price * bytes
  else price * tierSize + tieredCost (price * (6 / 5)) (bytes - tierSize)
termination_by bytes
decreasing_by simp only [tierSize] at *; omega

def refScript (basePrice : Ratio) (bytes : Nat) : UInt64 :=
  UInt64.clamp (tieredCost basePrice.toRat bytes).floor.toNat

def minimum (p : Params) (size : Nat) (units : ExUnits) (refScriptBytes : Nat) : UInt64 :=
  ((linear p size).saturatingAdd (script p.prices units)).saturatingAdd
    (refScript p.refScriptCostPerByte refScriptBytes)

def outputOverhead : Nat := 160

def minLovelace (coinsPerByte : UInt64) (o : TxOut) : UInt64 :=
  (UInt64.clamp (outputOverhead + o.size)).saturatingMul coinsPerByte

def settleFrom (coinsPerByte : UInt64) (o : TxOut) (required : UInt64) : UInt64 :=
  if minLovelace coinsPerByte (o.withLovelace required) ≤ required then required
  else settleFrom coinsPerByte o (minLovelace coinsPerByte (o.withLovelace required))
termination_by UInt64.size - required.toNat
decreasing_by
  rename_i h
  have bound := (minLovelace coinsPerByte (o.withLovelace required)).toNat_lt_size
  have := UInt64.lt_iff_toNat_lt.mp (UInt64.not_le.mp h)
  omega

/-- The least lovelace that is enough for the output once the output holds it. Lovelace takes part
in the size, so this is a fixed point, found from below. -/
def requiredLovelace (coinsPerByte : UInt64) (o : TxOut) : UInt64 :=
  settleFrom coinsPerByte o (minLovelace coinsPerByte (o.withLovelace 0))

def collateral (p : Params) (fee : UInt64) : UInt64 :=
  UInt64.clamp ((fee.toNat * p.collateralPercentage.toNat + 99) / 100)

end ConwayTx.Fee
