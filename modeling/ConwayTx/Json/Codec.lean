import ConwayTx.Hash
import ConwayTx.Json.Parser
import ConwayTx.Json.Printer

namespace ConwayTx

class ToJson (α : Type) where
  toJson : α → Json

class FromJson (α : Type) where
  fromJson? : Json → Option α

export ToJson (toJson)
export FromJson (fromJson?)

namespace Json

variable {α : Type}

def read? [FromJson α] (text : String) : Option α := (parse? text).bind fromJson?

def write [ToJson α] (a : α) : String := print (toJson a)

structure Record where
  fields : List (String × Json)
  positional : Bool

def record? (names : List String) : Json → Option Record
  | obj members =>
    let known := members.filter (fun m => names.contains m.1)
    if (known.map (·.1)).eraseDups.length = known.length then some ⟨known, false⟩ else none
  | arr items => if items.length ≤ names.length then some ⟨names.zip items, true⟩ else none
  | _ => none

namespace Record

def find? (r : Record) (name : String) : Option Json := r.fields.lookup name

def required [FromJson α] (r : Record) (name : String) : Option α :=
  (r.find? name).bind fromJson?

/-- A field that may be missing, though not among fields given by position. -/
def optional [FromJson α] (r : Record) (name : String) : Option (Option α) :=
  match r.find? name with
  | none => if r.positional then none else some none
  | some null => some none
  | some j => (fromJson? j).map some

def withDefault [FromJson α] (r : Record) (name : String) (default : α) : Option α :=
  match r.find? name with
  | none => some default
  | some j => fromJson? j

end Record

def variant? : Json → Option (String × Json)
  | str name => some (name, null)
  | obj [(name, contents)] => some (name, contents)
  | _ => none

def plain (a : α) : Json → Option α
  | null => some a
  | _ => none

def variant (name : String) (contents : Json) : Json := obj [(name, contents)]

end Json

instance : ToJson Json := ⟨id⟩
instance : FromJson Json := ⟨some⟩

instance : ToJson String := ⟨.str⟩
instance : FromJson String := ⟨Json.str?⟩

instance : ToJson UInt64 := ⟨.nat⟩

instance : FromJson UInt64 where
  fromJson?
    | .nat n => some n
    | _ => none

instance : ToJson UInt32 := ⟨fun n => .nat n.toUInt64⟩

instance : FromJson UInt32 where
  fromJson?
    | .nat n => if n.toNat < UInt32.size then some n.toUInt32 else none
    | _ => none

instance : ToJson UInt16 := ⟨fun n => .nat n.toUInt64⟩

instance : FromJson UInt16 where
  fromJson?
    | .nat n => if n.toNat < UInt16.size then some n.toUInt16 else none
    | _ => none

instance : ToJson Int64 where
  toJson n := if 0 ≤ n.toInt then .nat (UInt64.ofNat n.toInt.toNat) else .neg n

instance : FromJson Int64 where
  fromJson? j := j.int?.bind Int64.ofInt?

instance : ToJson Bool := ⟨.bool⟩

instance {α : Type} [ToJson α] : ToJson (List α) := ⟨fun xs => .arr (xs.map toJson)⟩

instance {α : Type} [FromJson α] : FromJson (List α) where
  fromJson? j := j.items?.bind (·.mapM fromJson?)

instance {α : Type} [ToJson α] : ToJson (Option α) where
  toJson
    | some a => toJson a
    | none => .null

instance {α : Type} [FromJson α] : FromJson (Option α) where
  fromJson?
    | .null => some none
    | j => (fromJson? j).map some

instance {width : Nat} : ToJson (Hash width) := ⟨fun h => .str h.toHex⟩

instance {width : Nat} : FromJson (Hash width) where
  fromJson? j := j.str?.bind (fun s => (Hash.ofHex s).toOption)

class NamedKey (κ : Type) where
  keyName : κ → String
  ofKeyName? : String → Option κ

instance {width : Nat} : NamedKey (Hash width) := ⟨Hash.toHex, fun s => (Hash.ofHex s).toOption⟩

instance : NamedKey String := ⟨id, some⟩

instance {κ ν : Type} [Ranked κ] [NamedKey κ] [ToJson ν] : ToJson (OrdMap κ ν) where
  toJson m := .obj (m.toList.map (fun e => (NamedKey.keyName e.1, toJson e.2)))

instance {κ ν : Type} [Ranked κ] [NamedKey κ] [FromJson ν] : FromJson (OrdMap κ ν) where
  fromJson?
    | .obj members =>
      (members.mapM (fun (m : String × Json) => do
        let k ← NamedKey.ofKeyName? m.1
        let v ← fromJson? m.2
        return (k, v))).map OrdMap.ofList
    | _ => none

end ConwayTx
