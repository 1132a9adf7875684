import ConwayTx.Json.Basic

namespace ConwayTx.Json

def hexDigit (n : Nat) : Char := (Nat.toDigits 16 n).headD '0'

def escape (c : Char) : List Char :=
  match c with
  | '"' => ['\\', '"']
  | '\\' => ['\\', '\\']
  | '\x08' => ['\\', 'b']
  | '\x0c' => ['\\', 'f']
  | '\n' => ['\\', 'n']
  | '\r' => ['\\', 'r']
  | '\t' => ['\\', 't']
  | c =>
    if c.toNat < 0x20 then
      ['\\', 'u', '0', '0', hexDigit (c.toNat / 16), hexDigit (c.toNat % 16)]
    else [c]

def quote (s : String) : String := "\"" ++ String.ofList (s.toList.flatMap escape) ++ "\""

mutual

def print : Json → String
  | null => "null"
  | bool true => "true"
  | bool false => "false"
  | nat n => toString n.toNat
  | neg n => toString n.toInt
  | float _ => "null"
  | str s => quote s
  | arr items => "[" ++ ",".intercalate (printAll items) ++ "]"
  | obj members => "\x7b" ++ ",".intercalate (printMembers members) ++ "\x7d"
  | unreadable => "null"

def printAll : List Json → List String
  | [] => []
  | j :: rest => print j :: printAll rest

def printMembers : List (String × Json) → List String
  | [] => []
  | (name, j) :: rest => (quote name ++ ":" ++ print j) :: printMembers rest

end

end ConwayTx.Json
