import ConwayTx.Bytes
import ConwayTx.Text.Quoted

namespace ConwayTx

inductive Bech32Error
  | malformed
  | badPrefix
  | wrongPrefix (expected found : String)
  | badLength (length : Nat)
  | unknownDRepHeader (byte : UInt8)
  deriving DecidableEq, Repr

namespace Bech32Error

def headerText (byte : UInt8) : String :=
  let digits := Text.hexNumber byte.toNat
  "0x" ++ (if byte.toNat < 16 then "0" ++ digits else digits)

def message? : Bech32Error → Option String
  | .malformed => none
  | .badPrefix => none
  | .wrongPrefix expected found => some s!"expected prefix {expected}, found {found}"
  | .badLength length => some s!"unexpected payload length {length}"
  | .unknownDRepHeader byte => some s!"unexpected payload: unknown drep header {headerText byte}"

def isMalformed : Bech32Error → Bool
  | .malformed => true
  | .badPrefix => true
  | _ => false

end Bech32Error

namespace Bech32

def alphabet : List Char := "qpzry9x8gf2tvdw0s3jn54khce6mua7l".toList

def symbol (n : Nat) : Char := alphabet.getD n 'q'

def lower (c : Char) : Char := if 'A' ≤ c ∧ c ≤ 'Z' then Char.ofNat (c.toNat + 32) else c

def isUpper (c : Char) : Bool := 'A' ≤ c && c ≤ 'Z'

def isLower (c : Char) : Bool := 'a' ≤ c && c ≤ 'z'

def symbolValue? (c : Char) : Option Nat := alphabet.idxOf? (lower c)

def maxLength : Nat := 1023

def checksumLength : Nat := 6

def mixedCase (text : List Char) : Bool := text.any isUpper && text.any isLower

def isPrefix (hrp : List Char) : Bool :=
  !hrp.isEmpty && hrp.length ≤ 83 && hrp.all (fun c => 33 ≤ c.toNat && c.toNat ≤ 126) &&
    !mixedCase hrp

def expand (hrp : List Char) : List Nat :=
  let codes := hrp.map (fun c => (lower c).toNat)
  codes.map (· / 32) ++ [0] ++ codes.map (· % 32)

def generators : List UInt32 := [0x3b6a57b2, 0x26508e6d, 0x1ea119fa, 0x3d4233dd, 0x2a1462b3]

def step (state : UInt32) (value : Nat) : UInt32 :=
  let top := (state >>> 25).toNat
  let shifted := ((state &&& 0x1ffffff) <<< 5) ^^^ UInt32.ofNat value
  generators.zipIdx.foldl (fun s g => if top.testBit g.2 then s ^^^ g.1 else s) shifted

def residue (values : List Nat) : UInt32 := values.foldl step 1

/-- The two residues that a valid text may leave. -/
def residues : List UInt32 := [1, 0x2bc830a3]

def checksum (hrp : List Char) (values : List Nat) : List Nat :=
  let r := residue (expand hrp ++ values ++ List.replicate checksumLength 0) ^^^ 1
  (List.range checksumLength).map (fun i => (r.toNat >>> (5 * (5 - i))) % 32)

def bits : (width : Nat) → Nat → List Bool
  | 0, _ => []
  | width + 1, n => bits width (n / 2) ++ [n % 2 == 1]

def ofBits (bs : List Bool) : Nat := bs.foldl (fun n b => n * 2 + b.toNat) 0

def groupsOfFive : List Bool → List Nat
  | a :: b :: c :: d :: e :: rest => ofBits [a, b, c, d, e] :: groupsOfFive rest
  | [] => []
  | short => [ofBits ((short ++ List.replicate 5 false).take 5)]

/-- Groups of eight bits; bits that are left over are dropped. -/
def groupsOfEight : List Bool → Bytes
  | a :: b :: c :: d :: e :: f :: g :: h :: rest =>
    UInt8.ofNat (ofBits [a, b, c, d, e, f, g, h]) :: groupsOfEight rest
  | _ => []

def toSymbols (bs : Bytes) : List Nat := groupsOfFive (bs.flatMap (fun b => bits 8 b.toNat))

def ofSymbols (values : List Nat) : Bytes := groupsOfEight (values.flatMap (bits 5))

def encode (hrp : String) (data : Bytes) : Except Bech32Error String :=
  let chars := hrp.toList
  if !isPrefix chars then .error .badPrefix
  else
    let values := toSymbols data
    if chars.length + 1 + values.length + checksumLength > maxLength then .error .malformed
    else
      .ok (String.ofList (chars.map lower ++ '1' :: (values ++ checksum chars values).map symbol))

def splitLast (text : List Char) : Option (List Char × List Char) :=
  let after := text.reverse.takeWhile (· != '1')
  match text.reverse.dropWhile (· != '1') with
  | [] => none
  | _ :: before => some (before.reverse, after.reverse)

def decodeChars? (text : List Char) : Option (List Char × Bytes) := do
  let (hrp, data) ← splitLast text
  let values ← data.mapM symbolValue?
  guard (!mixedCase text)
  guard (isPrefix hrp)
  guard (text.length ≤ maxLength)
  guard (checksumLength ≤ values.length)
  guard (residues.contains (residue (expand hrp ++ values)))
  return (hrp, ofSymbols (values.take (values.length - checksumLength)))

/-- Any bech32 text, as its prefix in the case it is written in, and its payload. -/
def decode (text : String) : Except Bech32Error (String × Bytes) :=
  match decodeChars? text.toList with
  | some (hrp, data) => .ok (String.ofList hrp, data)
  | none => .error .malformed

def decodeExpecting (expected text : String) : Except Bech32Error Bytes :=
  match decode text with
  | .error e => .error e
  | .ok (hrp, data) => if hrp = expected then .ok data else .error (.wrongPrefix expected hrp)

end Bech32

end ConwayTx
