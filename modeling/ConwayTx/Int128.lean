
namespace ConwayTx

def Int128.largest : Nat := 0x7fffffffffffffffffffffffffffffff

structure Int128 where
  toInt : Int
  lower : -(Int128.largest : Int) - 1 ≤ toInt
  upper : toInt ≤ Int128.largest
  deriving DecidableEq

namespace Int128

def ofInt? (n : Int) : Option Int128 :=
  if h : -(largest : Int) - 1 ≤ n ∧ n ≤ largest then some ⟨n, h.1, h.2⟩ else none

def ofInt64 (n : Int64) : Int128 :=
  ⟨n.toInt, by have := n.le_toInt; unfold largest; omega,
    by have := n.toInt_lt; unfold largest; omega⟩

def ofUInt64 (n : UInt64) : Int128 :=
  ⟨n.toNat, by omega, by have := n.toNat_lt; unfold largest; omega⟩

theorem ofInt?_eq_some_iff {z : Int} {n : Int128} : ofInt? z = some n ↔ n.toInt = z := by
  unfold ofInt?
  split
  · constructor
    · rintro ⟨⟩
      rfl
    · rintro rfl
      rfl
  · rename_i out
    constructor
    · rintro ⟨⟩
    · rintro rfl
      exact absurd ⟨n.lower, n.upper⟩ out

def isPlain (n : Int128) : Bool :=
  decide (-(UInt64.size : Int) ≤ n.toInt) && decide (n.toInt < UInt64.size)

instance : ToString Int128 := ⟨fun n => toString n.toInt⟩

end Int128

end ConwayTx
