import ConwayTx.Json.Parser
import ConwayTx.Metadata
import ConwayTx.Text.Decimal
import ConwayTx.Text.Hex

namespace ConwayTx.Metadatum

def ofString (s : String) : Except MetadataError Metadatum :=
  let decoded : Option Bytes :=
    match s.toList with
    | '0' :: 'x' :: digits => (Hex.decode (String.ofList digits)).toOption
    | _ => none
  match decoded with
  | some b => if b.length ≤ maxLength then .ok (bytes b) else .error (.tooLong b.length)
  | none =>
    if s.utf8ByteSize ≤ maxLength then .ok (text s) else .error (.tooLong s.utf8ByteSize)

def ofName (name : String) : Except MetadataError Metadatum :=
  match Decimal.int64 name with
  | .ok n => .ok (int (Int128.ofInt64 n))
  | .error _ => ofString name

mutual

def ofJson : Json → Except MetadataError Metadatum
  | .nat n => .ok (int (Int128.ofUInt64 n))
  | .neg n => .ok (int (Int128.ofInt64 n))
  | .float _ => .error (.unsupported "a fractional number")
  | .null => .error (.unsupported "null")
  | .bool _ => .error (.unsupported "a boolean")
  | .str s => ofString s
  | .arr items => (ofItems items).map array
  | .obj members => (ofMembers members).map map
  | .unreadable => .error .json

def ofItems : List Json → Except MetadataError (List Metadatum)
  | [] => .ok []
  | j :: rest => do
    let m ← ofJson j
    let ms ← ofItems rest
    return m :: ms

def ofMembers : List (String × Json) → Except MetadataError (List (Metadatum × Metadatum))
  | [] => .ok []
  | (name, j) :: rest => do
    let key ← ofName name
    let m ← ofJson j
    let ms ← ofMembers rest
    return (key, m) :: ms

end

def ofText (text : String) : Except MetadataError Metadatum :=
  match Json.parseValue? text with
  | some j => ofJson j
  | none => .error .json

end ConwayTx.Metadatum
