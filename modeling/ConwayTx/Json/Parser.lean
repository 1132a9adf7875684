import ConwayTx.Json.Basic
import ConwayTx.Word

namespace ConwayTx.Json

structure Numeral where
  negative : Bool
  whole : List Nat
  fraction : Option (List Nat)
  exponent : Option (Bool × List Nat)

namespace Numeral

def absorb (significand : Nat) : List Nat → Nat × List Nat
  | [] => (significand, [])
  | d :: rest =>
    if significand * 10 + d < UInt64.size then absorb (significand * 10 + d) rest
    else (significand, d :: rest)

def powerOfTen (n : Nat) : Float := Float.ofScientific 1 false n

def divide (x : Float) (n : Nat) : Float :=
  if n ≤ 308 then x / powerOfTen n
  else if x == 0 then x
  else divide (x / powerOfTen 308) (n - 308)
termination_by n

/-- `significand * 10 ^ exponent`, unless it is too large. -/
def scale? (significand : Nat) (exponent : Int) : Option Float :=
  let x := (UInt64.ofNat significand).toFloat
  match exponent with
  | .ofNat n =>
    if n ≤ 308 then
      let y := x * powerOfTen n
      if y.isInf then none else some y
    else if x == 0 then some x
    else none
  | .negSucc n => some (divide x (n + 1))

def exponentOf? (digits : List Nat) : Option Nat :=
  digits.foldlM (fun n d => if n * 10 + d < UInt32.size / 2 then some (n * 10 + d) else none) 0

def float? (n : Numeral) : Option Float :=
  let (high, dropped) := absorb 0 n.whole
  let fraction := n.fraction.getD []
  let (significand, left) := absorb high fraction
  let shift : Int := dropped.length - (fraction.length - left.length : Nat)
  let size :=
    match n.exponent with
    | none => scale? significand shift
    | some (negative, digits) =>
      match exponentOf? digits with
      | some e => scale? significand (if negative then shift - e else shift + e)
      | none => if significand = 0 ∨ negative then some 0 else none
  size.map (fun x => if n.negative then -x else x)

def integer? (n : Numeral) : Option Json :=
  match n.fraction, n.exponent, absorb 0 n.whole with
  | none, none, (m, []) =>
    if !n.negative then some (nat (UInt64.ofNat m))
    else if 0 < m ∧ m ≤ Int64.largest + 1 then some (neg (Int64.ofInt (-m)))
    else none
  | _, _, _ => none

def toJson (n : Numeral) : Json :=
  match n.integer? with
  | some j => j
  | none =>
    match n.float? with
    | some x => float x
    | none => unreadable

end Numeral

def isBlank (c : Char) : Bool := c == ' ' || c == '\t' || c == '\n' || c == '\r'

def skipBlanks (text : List Char) : List Char := text.dropWhile isBlank

def digitsOf (text : List Char) : List Nat × List Char :=
  ((text.takeWhile Char.isDigit).map (fun c => c.toNat - 48), text.dropWhile Char.isDigit)

def someDigits (text : List Char) : Option (List Nat × List Char) :=
  match digitsOf text with
  | ([], _) => none
  | (digits, rest) => some (digits, rest)

def fractionOf (text : List Char) : Option (Option (List Nat) × List Char) :=
  match text with
  | '.' :: rest => (someDigits rest).map (fun (digits, rest) => (some digits, rest))
  | _ => some (none, text)

def exponentOf (text : List Char) : Option (Option (Bool × List Nat) × List Char) :=
  let signed (rest : List Char) : Option (Option (Bool × List Nat) × List Char) :=
    match rest with
    | '+' :: rest => (someDigits rest).map (fun (digits, rest) => (some (false, digits), rest))
    | '-' :: rest => (someDigits rest).map (fun (digits, rest) => (some (true, digits), rest))
    | rest => (someDigits rest).map (fun (digits, rest) => (some (false, digits), rest))
  match text with
  | 'e' :: rest => signed rest
  | 'E' :: rest => signed rest
  | _ => some (none, text)

def number (text : List Char) : Option (Json × List Char) := do
  let (negative, text) :=
    match text with
    | '-' :: rest => (true, rest)
    | _ => (false, text)
  let (whole, text) ← someDigits text
  guard (whole.length = 1 ∨ whole.head? ≠ some 0)
  let (fraction, text) ← fractionOf text
  let (exponent, text) ← exponentOf text
  return (Numeral.toJson ⟨negative, whole, fraction, exponent⟩, text)

def hexValue? (c : Char) : Option Nat :=
  if '0' ≤ c ∧ c ≤ '9' then some (c.toNat - 48)
  else if 'a' ≤ c ∧ c ≤ 'f' then some (c.toNat - 87)
  else if 'A' ≤ c ∧ c ≤ 'F' then some (c.toNat - 55)
  else none

def codeUnit? (a b c d : Char) : Option Nat := do
  let a ← hexValue? a
  let b ← hexValue? b
  let c ← hexValue? c
  let d ← hexValue? d
  return ((a * 16 + b) * 16 + c) * 16 + d

def codeUnits : List Char → Option (List (Char ⊕ Nat) × List Char)
  | '"' :: rest => some ([], rest)
  | '\\' :: 'u' :: a :: b :: c :: d :: rest => do
    let unit ← codeUnit? a b c d
    let (units, rest) ← codeUnits rest
    return (.inr unit :: units, rest)
  | '\\' :: c :: rest => do
    let plain ←
      match c with
      | '"' => some '"'
      | '\\' => some '\\'
      | '/' => some '/'
      | 'b' => some '\x08'
      | 'f' => some '\x0c'
      | 'n' => some '\n'
      | 'r' => some '\r'
      | 't' => some '\t'
      | _ => none
    let (units, rest) ← codeUnits rest
    return (.inl plain :: units, rest)
  | c :: rest =>
    if c.toNat < 0x20 ∨ c = '\\' then none
    else (codeUnits rest).map (fun (units, rest) => (.inl c :: units, rest))
  | [] => none

def isHigh (n : Nat) : Bool := 0xd800 ≤ n && n < 0xdc00

def isLow (n : Nat) : Bool := 0xdc00 ≤ n && n < 0xe000

def joinPairs : List (Char ⊕ Nat) → Option (List Char)
  | [] => some []
  | .inl c :: rest => (joinPairs rest).map (c :: ·)
  | .inr high :: .inr low :: rest =>
    if isHigh high then
      if isLow low then
        (joinPairs rest).map (Char.ofNat (0x10000 + (high - 0xd800) * 0x400 + (low - 0xdc00)) :: ·)
      else none
    else if isLow high then none
    else (joinPairs (.inr low :: rest)).map (Char.ofNat high :: ·)
  | .inr unit :: rest =>
    if isHigh unit || isLow unit then none else (joinPairs rest).map (Char.ofNat unit :: ·)

def string (text : List Char) : Option (Option String × List Char) :=
  (codeUnits text).map (fun (units, rest) => ((joinPairs units).map String.ofList, rest))

def literal (word : String) (value : Json) (text : List Char) : Option (Json × List Char) :=
  if word.toList.isPrefixOf text then some (value, text.drop word.length) else none

/-- A container that may nest no deeper is well formed all the same. -/
def bounded (depth : Nat) (j : Json) : Json := if depth = 0 then unreadable else j

def object (members : List (Option String × Json)) : Json :=
  match members.mapM (fun m => m.1.map (·, m.2)) with
  | some members => obj members
  | none => unreadable

mutual

def value (depth : Nat) : (fuel : Nat) → List Char → Option (Json × List Char)
  | 0, _ => none
  | fuel + 1, text =>
    match skipBlanks text with
    | '"' :: rest =>
      (string rest).map (fun (s, rest) => ((s.map str).getD unreadable, rest))
    | '[' :: rest =>
      match skipBlanks rest with
      | ']' :: rest => some (bounded depth (arr []), rest)
      | _ =>
        (elements (depth - 1) fuel rest).map
          (fun (items, rest) => (bounded depth (arr items), rest))
    | '\x7b' :: rest =>
      match skipBlanks rest with
      | '\x7d' :: rest => some (bounded depth (obj []), rest)
      | _ =>
        (entries (depth - 1) fuel rest).map (fun (ms, rest) => (bounded depth (object ms), rest))
    | 'n' :: rest => literal "ull" null rest
    | 't' :: rest => literal "rue" (bool true) rest
    | 'f' :: rest => literal "alse" (bool false) rest
    | text => number text

def elements (depth : Nat) : (fuel : Nat) → List Char → Option (List Json × List Char)
  | 0, _ => none
  | fuel + 1, text =>
    match value depth fuel text with
    | none => none
    | some (item, rest) =>
      match skipBlanks rest with
      | ',' :: rest => (elements depth fuel rest).map (fun (items, rest) => (item :: items, rest))
      | ']' :: rest => some ([item], rest)
      | _ => none

def entries (depth : Nat) :
    (fuel : Nat) → List Char → Option (List (Option String × Json) × List Char)
  | 0, _ => none
  | fuel + 1, text =>
    match skipBlanks text with
    | '"' :: rest =>
      match string rest with
      | none => none
      | some (name, rest) =>
        match skipBlanks rest with
        | ':' :: rest =>
          match value depth fuel rest with
          | none => none
          | some (item, rest) =>
            match skipBlanks rest with
            | ',' :: rest =>
              (entries depth fuel rest).map (fun (members, rest) => ((name, item) :: members, rest))
            | '\x7d' :: rest => some ([(name, item)], rest)
            | _ => none
        | _ => none
    | _ => none

end

def maxDepth : Nat := 127

/-- The value that makes up the whole text. Every step but one a container takes a character. -/
def parse? (text : String) : Option Json :=
  let chars := text.toList
  match value maxDepth (2 * chars.length + 2) chars with
  | some (j, rest) => if (skipBlanks rest).isEmpty then some j else none
  | none => none

def parseValue? (text : String) : Option Json := ((parse? text).filter isReadable).map canonical

end ConwayTx.Json
