import ConwayTx.Toml.Basic
import ConwayTx.Word

namespace ConwayTx.Toml

def digitRun (isDigit : Char → Bool) : List Char → Option (List Char)
  | [] => none
  | [c] => if isDigit c then some [c] else none
  | c :: '_' :: d :: rest =>
    if isDigit c then (digitRun isDigit (d :: rest)).map (c :: ·) else none
  | c :: rest => if isDigit c then (digitRun isDigit rest).map (c :: ·) else none

def digitValue (c : Char) : Nat :=
  if c.isDigit then c.toNat - 48 else if c.isLower then c.toNat - 87 else c.toNat - 55

def inBase (base : Nat) (digits : List Char) : Nat :=
  digits.foldl (fun n c => n * base + digitValue c) 0

def isDigitIn (base : Nat) (c : Char) : Bool := c.isAlphanum && digitValue c < base

def based (base : Nat) (text : List Char) : Option Toml :=
  (digitRun (isDigitIn base) text).bind (fun digits =>
    (Int64.ofInt? (inBase base digits)).map int)

def signOf : List Char → Bool × List Char
  | '-' :: rest => (true, rest)
  | '+' :: rest => (false, rest)
  | text => (false, text)

def wholeDigits (text : List Char) : Option (List Char) :=
  (digitRun Char.isDigit text).filter (fun digits => digits.length = 1 || digits.head? != some '0')

def decimal (text : List Char) : Option Toml :=
  let (negative, text) := signOf text
  (wholeDigits text).bind (fun digits =>
    let n : Int := inBase 10 digits
    (Int64.ofInt? (if negative then -n else n)).map int)

def integer (text : List Char) : Option Toml :=
  match text with
  | '0' :: 'x' :: digits => based 16 digits
  | '0' :: 'o' :: digits => based 8 digits
  | '0' :: 'b' :: digits => based 2 digits
  | text => decimal text

def isExponentMark (c : Char) : Bool := c == 'e' || c == 'E'

/-- The number with these decimal digits, the last `places` of them behind the point. Powers of
ten that leave the range of floating point however many digits there are need not be taken in
full. -/
def scaled (digits : List Char) (places : Nat) (exponent : Int) : Float :=
  let power := exponent - places
  Float.ofScientific (inBase 10 digits) (power < 0) (min power.natAbs (digits.length + 400))

def fraction : List Char → Option (List Char)
  | [] => some []
  | '.' :: digits => digitRun Char.isDigit digits
  | _ => none

def exponent : List Char → Option Int
  | [] => some 0
  | _ :: text =>
    let (negative, text) := signOf text
    (digitRun Char.isDigit text).map (fun digits =>
      let n : Int := inBase 10 digits
      if negative then -n else n)

def floating (text : List Char) : Option Toml := do
  let (negative, text) := signOf text
  let signed (x : Float) : Toml := float (if negative then -x else x)
  if text = "inf".toList then return signed (1.0 / 0.0)
  else if text = "nan".toList then return signed (0.0 / 0.0)
  else
    let mantissa := text.takeWhile (fun c => !isExponentMark c)
    let digits ← wholeDigits (mantissa.takeWhile (· != '.'))
    let places ← fraction (mantissa.dropWhile (· != '.'))
    let power ← exponent (text.dropWhile (fun c => !isExponentMark c))
    guard (text.any (fun c => c == '.' || isExponentMark c))
    let x := scaled (digits ++ places) places.length power
    if x.isInf then none else return signed x

def fixedDigits (count : Nat) (text : List Char) : Option (Nat × List Char) :=
  let digits := text.take count
  if digits.length = count ∧ digits.all Char.isDigit then some (inBase 10 digits, text.drop count)
  else none

def expect (c : Char) : List Char → Option (List Char)
  | d :: rest => if c = d then some rest else none
  | [] => none

def daysIn (year month : Nat) : Nat :=
  if month = 2 then
    if year % 4 = 0 ∧ (year % 100 ≠ 0 ∨ year % 400 = 0) then 29 else 28
  else if month = 4 ∨ month = 6 ∨ month = 9 ∨ month = 11 then 30
  else 31

def date (text : List Char) : Option (List Char) := do
  let (year, text) ← fixedDigits 4 text
  let (month, text) ← fixedDigits 2 (← expect '-' text)
  let (day, text) ← fixedDigits 2 (← expect '-' text)
  guard (1 ≤ month ∧ month ≤ 12 ∧ 1 ≤ day ∧ day ≤ daysIn year month)
  return text

def fractionalSeconds (text : List Char) : Option (List Char) :=
  match text with
  | '.' :: rest =>
    if (rest.takeWhile Char.isDigit).isEmpty then none else some (rest.dropWhile Char.isDigit)
  | _ => some text

def seconds (text : List Char) : Option (List Char) :=
  match text with
  | ':' :: rest => do
    let (second, rest) ← fixedDigits 2 rest
    guard (second ≤ 60)
    fractionalSeconds rest
  | _ => some text

def time (text : List Char) : Option (List Char) := do
  let (hour, text) ← fixedDigits 2 text
  let (minute, text) ← fixedDigits 2 (← expect ':' text)
  guard (hour ≤ 23 ∧ minute ≤ 59)
  seconds text

def offset (text : List Char) : Option (List Char) :=
  match text with
  | [] => some []
  | c :: rest =>
    if c = 'Z' ∨ c = 'z' then some rest
    else if c = '+' ∨ c = '-' then do
      let (hour, rest) ← fixedDigits 2 rest
      let (minute, rest) ← fixedDigits 2 (← expect ':' rest)
      guard (hour ≤ 23 ∧ minute ≤ 59)
      return rest
    else none

def complete (text : Option (List Char)) : Option Toml :=
  match text with
  | some [] => some moment
  | _ => none

def dateOrTime (text : List Char) : Option Toml :=
  match date text with
  | none => complete (time text)
  | some [] => some moment
  | some (c :: rest) =>
    if c = 'T' ∨ c = 't' ∨ c = ' ' then complete ((time rest).bind offset) else none

def scalar (text : List Char) : Option Toml :=
  if text = "true".toList then some (bool true)
  else if text = "false".toList then some (bool false)
  else ((integer text).or (floating text)).or (dateOrTime text)

end ConwayTx.Toml
