import ConwayTx.Bytes
import ConwayTx.Text.Quoted

namespace ConwayTx

inductive HexError
  | oddLength
  | wrongLength
  | badDigit (byte : UInt8) (position : Nat)
  deriving DecidableEq, Repr

def HexError.message : HexError → String
  | .oddLength => "Odd number of digits"
  | .wrongLength => "Invalid string length"
  | .badDigit byte position =>
    s!"Invalid character {Text.quoteLatin1 byte} at position {position}"

namespace Hex

def digit (n : Nat) : Char :=
  match n with
  | 0 => '0' | 1 => '1' | 2 => '2' | 3 => '3' | 4 => '4' | 5 => '5' | 6 => '6' | 7 => '7'
  | 8 => '8' | 9 => '9' | 10 => 'a' | 11 => 'b' | 12 => 'c' | 13 => 'd' | 14 => 'e' | _ => 'f'

def digitValue? (byte : UInt8) : Option Nat :=
  let n := byte.toNat
  if 48 ≤ n ∧ n ≤ 57 then some (n - 48)
  else if 97 ≤ n ∧ n ≤ 102 then some (n - 87)
  else if 65 ≤ n ∧ n ≤ 70 then some (n - 55)
  else none

def encodeChars (bs : Bytes) : List Char :=
  bs.flatMap (fun b => [digit (b.toNat / 16), digit (b.toNat % 16)])

def encode (bs : Bytes) : String := String.ofList (encodeChars bs)

def decodePairs (position : Nat) : Bytes → Except HexError Bytes
  | high :: low :: rest =>
    match digitValue? high, digitValue? low with
    | none, _ => .error (.badDigit high position)
    | _, none => .error (.badDigit low (position + 1))
    | some h, some l => (decodePairs (position + 2) rest).map (UInt8.ofNat (h * 16 + l) :: ·)
  | [_] => .error .oddLength
  | [] => .ok []

def decodeUtf8 (text : Bytes) : Except HexError Bytes :=
  if text.length % 2 = 1 then .error .oddLength else decodePairs 0 text

def decode (text : String) : Except HexError Bytes :=
  decodeUtf8 text.toUTF8.toList

def decodeExactly (width : Nat) (text : String) : Except HexError Bytes :=
  let utf8 := text.toUTF8.toList
  if utf8.length % 2 = 1 then .error .oddLength
  else if utf8.length / 2 ≠ width then .error .wrongLength
  else decodePairs 0 utf8

theorem length_of_decodePairs {position : Nat} {text bs : Bytes}
    (h : decodePairs position text = .ok bs) : bs.length = text.length / 2 := by
  fun_induction decodePairs position text generalizing bs with
  | case1 => cases h
  | case2 => cases h
  | case3 position high low rest hv lv eh el ih =>
    match e : decodePairs (position + 2) rest with
    | .error _ => rw [e] at h; cases h
    | .ok tail =>
      rw [e] at h
      cases h
      simp only [List.length_cons, ih e]
      omega
  | case4 => cases h
  | case5 => cases h; rfl

theorem length_of_decodeExactly {width : Nat} {text : String} {bs : Bytes}
    (h : decodeExactly width text = .ok bs) : bs.length = width := by
  unfold decodeExactly at h
  dsimp only at h
  split at h
  · cases h
  · split at h
    · cases h
    · rename_i e
      rw [length_of_decodePairs h]
      exact Decidable.not_not.mp e

end Hex

end ConwayTx
