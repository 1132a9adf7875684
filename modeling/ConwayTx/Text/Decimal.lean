import ConwayTx.Word

namespace ConwayTx.Decimal

inductive Error
  | empty
  | invalidDigit
  | tooLarge
  | tooSmall
  deriving DecidableEq, Repr

def Error.message : Error → String
  | .empty => "cannot parse integer from empty string"
  | .invalidDigit => "invalid digit found in string"
  | .tooLarge => "number too large to fit in target type"
  | .tooSmall => "number too small to fit in target type"

def digitValue? (c : Char) : Option Nat :=
  if '0' ≤ c ∧ c ≤ '9' then some (c.toNat - 48) else none

/-- Reads on from the value `acc`; the first digit that takes it past `limit` is reported. -/
def digitsFrom (limit : Nat) (beyond : Error) (acc : Nat) : List Char → Except Error Nat
  | [] => .ok acc
  | c :: rest =>
    match digitValue? c with
    | none => .error .invalidDigit
    | some d =>
      if acc * 10 + d ≤ limit then digitsFrom limit beyond (acc * 10 + d) rest
      else .error beyond

def natUpTo (limit : Nat) : List Char → Except Error Nat
  | [] => .error .empty
  | ['+'] => .error .invalidDigit
  | '+' :: rest => digitsFrom limit .tooLarge 0 rest
  | text => digitsFrom limit .tooLarge 0 text

def uint64 (text : String) : Except Error UInt64 :=
  (natUpTo (UInt64.size - 1) text.toList).map UInt64.ofNat

def uint16 (text : String) : Except Error UInt16 :=
  (natUpTo (UInt16.size - 1) text.toList).map UInt16.ofNat

def int64 (text : String) : Except Error Int64 :=
  match text.toList with
  | [] => .error .empty
  | ['+'] => .error .invalidDigit
  | ['-'] => .error .invalidDigit
  | '+' :: rest => (digitsFrom Int64.largest .tooLarge 0 rest).map (fun n => Int64.ofInt n)
  | '-' :: rest => (digitsFrom (Int64.largest + 1) .tooSmall 0 rest).map (fun n => Int64.ofInt (-n))
  | digits => (digitsFrom Int64.largest .tooLarge 0 digits).map (fun n => Int64.ofInt n)

end ConwayTx.Decimal
