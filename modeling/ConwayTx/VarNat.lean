import ConwayTx.Bytes
import ConwayTx.Word

namespace ConwayTx.VarNat

inductive Error
  | overflow
  | outOfData
  deriving DecidableEq, Repr

def Error.message : Error → String
  | .overflow => "Variable integer overflows 64 bits"
  | .outOfData => "Variable integer ran out of data"

def leading (n : Nat) (written : Bytes) : Bytes :=
  if n = 0 then written else leading (n / 128) (UInt8.ofNat (n % 128 + 128) :: written)
termination_by n

def encode (n : UInt64) : Bytes :=
  leading (n.toNat / 128) [UInt8.ofNat (n.toNat % 128)]

def encodeAll (ns : List UInt64) : Bytes := ns.flatMap encode

/-- Reads on from the groups whose value is `acc`. Bytes count as read even where reading fails.
-/
def readFrom (acc : Nat) : Bytes → Except Error UInt64 × Bytes
  | [] => (.error .outOfData, [])
  | b :: rest =>
    if acc * 128 < UInt64.size then
      let value := acc * 128 + b.toNat % 128
      if b.toNat < 128 then (.ok (UInt64.ofNat value), rest) else readFrom value rest
    else (.error .overflow, rest)

def read (bs : Bytes) : Except Error UInt64 × Bytes := readFrom 0 bs

def next (bs : Bytes) : Except Error (UInt64 × Bytes) :=
  match read bs with
  | (.ok n, rest) => .ok (n, rest)
  | (.error e, _) => .error e

def readMany : (count : Nat) → Bytes → List (Except Error UInt64 × Bytes)
  | 0, _ => []
  | count + 1, bs =>
    let answer := read bs
    answer :: readMany count answer.2

end ConwayTx.VarNat
