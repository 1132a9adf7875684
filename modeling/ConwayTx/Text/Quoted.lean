
namespace ConwayTx.Text

def hexNumber (n : Nat) : String := String.ofList (Nat.toDigits 16 n)

def isHidden (n : Nat) : Bool := n < 0x20 || (0x7f ≤ n && n ≤ 0xa0) || n == 0xad

def quoteLatin1 (byte : UInt8) : String :=
  let body : String :=
    match Char.ofNat byte.toNat with
    | '\x00' => "\\0"
    | '\t' => "\\t"
    | '\r' => "\\r"
    | '\n' => "\\n"
    | '\'' => "\\'"
    | '\\' => "\\\\"
    | c =>
      if isHidden c.toNat then "\\u\x7b" ++ hexNumber c.toNat ++ "\x7d" else String.singleton c
  "'" ++ body ++ "'"

end ConwayTx.Text
