import ConwayTx.Word

namespace ConwayTx

structure Ratio where
  num : UInt64
  den : UInt64
  den_ne_zero : den ≠ 0
  deriving DecidableEq

namespace Ratio

def reduce? (num den : UInt64) : Option Ratio :=
  let g := Nat.gcd num.toNat den.toNat
  if h : UInt64.ofNat (den.toNat / g) ≠ 0 then
    some ⟨UInt64.ofNat (num.toNat / g), UInt64.ofNat (den.toNat / g), h⟩
  else none

def ofWord (n : UInt64) : Ratio := ⟨n, 1, by decide⟩

def toRat (r : Ratio) : Rat := (r.num.toNat : Rat) / r.den.toNat

def mulCeil (r : Ratio) (n : UInt64) : Nat :=
  (n.toNat * r.num.toNat + (r.den.toNat - 1)) / r.den.toNat

structure Convergents where
  num : Nat
  den : Nat
  prevNum : Nat
  prevDen : Nat

def Convergents.next? (c : Convergents) (a : Nat) : Option Convergents :=
  let num := a * c.num + c.prevNum
  let den := a * c.den + c.prevDen
  if num < UInt64.size ∧ den < UInt64.size then some ⟨num, den, c.num, c.den⟩ else none

def approach (value : Float) (q : Float) (c : Convergents) : (rounds : Nat) → Convergents
  | 0 => c
  | rounds + 1 =>
    if q < 0 ∨ 18446744073709551616.0 ≤ q then c
    else
      let a := q.toUInt64
      let f := q - a.toFloat
      match c.next? a.toNat with
      | none => c
      | some c =>
        let near := (c.num.toFloat / c.den.toFloat - value).abs < 1e-19
        if near ∨ f < 1.0 / 18446744073709551616.0 then c
        else approach value (1.0 / f) c rounds

/-- A ratio within 1e-19 where words allow it, in at most thirty rounds. Negative numbers and
those beyond the largest word have none. -/
def ofFloat? (value : Float) : Option Ratio :=
  if value < 0 ∨ value.isNaN ∨ 18446744073709551616.0 < value then none
  else
    let c := approach value value ⟨1, 0, 0, 1⟩ 30
    if c.den = 0 then none else reduce? (UInt64.ofNat c.num) (UInt64.ofNat c.den)

end Ratio

end ConwayTx
