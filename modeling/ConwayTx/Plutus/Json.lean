import ConwayTx.Json.Parser
import ConwayTx.Plutus.Data

namespace ConwayTx.PlutusData

inductive JsonError
  | json
  | notAnObject
  | badConstructor
  | noFields
  | badMap
  | noKey
  | noValue
  | badList
  | badInt
  | badBytes
  | badHex
  | unrecognised
  deriving DecidableEq, Repr

def JsonError.message? : JsonError → Option String
  | .json => none
  | .notAnObject => some "plutus data must be an object"
  | .badConstructor => some "constructor must be a natural"
  | .noFields => some "constructor without fields"
  | .badMap => some "map must be an array"
  | .noKey => some "map entry without k"
  | .noValue => some "map entry without v"
  | .badList => some "list must be an array"
  | .badInt => some "int out of range"
  | .badBytes => some "bytes must be a hex string"
  | .badHex => some "bytes must be hex"
  | .unrecognised => some "unrecognised plutus data object"

def intOfJson : Json → Except JsonError PlutusData
  | .nat n => .ok (int (Int128.ofUInt64 n))
  | .neg n => .ok (int (Int128.ofInt64 n))
  | _ => .error .badInt

def bytesOfJson : Json → Except JsonError PlutusData
  | .str s =>
    match Hex.decode s with
    | .ok b => .ok (bytes b)
    | .error _ => .error .badHex
  | _ => .error .badBytes

def ofJsonWithin : (depth : Nat) → Json → Except JsonError PlutusData
  | 0, _ => .error .json
  | depth + 1, j =>
    let member (name : String) : Option Json := j.member? name
    let all (items : List Json) : Except JsonError (List PlutusData) :=
      items.mapM (ofJsonWithin depth)
    let entry (e : Json) : Except JsonError (PlutusData × PlutusData) :=
      match e.member? "k", e.member? "v" with
      | none, _ => .error .noKey
      | _, none => .error .noValue
      | some k, some v => do
        let k ← ofJsonWithin depth k
        let v ← ofJsonWithin depth v
        return (k, v)
    if j.members?.isNone then .error .notAnObject
    else
      match member "constructor" with
      | some tag =>
        match tag, (member "fields").bind Json.items? with
        | .nat tag, some fields => (all fields).map (constr tag)
        | .nat _, none => .error .noFields
        | _, _ => .error .badConstructor
      | none =>
      match member "map" with
      | some entries =>
        match entries.items? with
        | some entries => (entries.mapM entry).map map
        | none => .error .badMap
      | none =>
      match member "list" with
      | some items =>
        match items.items? with
        | some items => (all items).map list
        | none => .error .badList
      | none =>
      match member "int" with
      | some n => intOfJson n
      | none =>
      match member "bytes" with
      | some b => bytesOfJson b
      | none => .error .unrecognised

/-- Readable trees nest less than `Json.maxDepth` deep, so none is refused for its depth. -/
def ofJson (j : Json) : Except JsonError PlutusData := ofJsonWithin (Json.maxDepth + 1) j

def ofText (text : String) : Except JsonError PlutusData :=
  match Json.parseValue? text with
  | some j => ofJson j
  | none => .error .json

end ConwayTx.PlutusData
