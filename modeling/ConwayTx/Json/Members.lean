import ConwayTx.Json.Codec

namespace ConwayTx.Json

def given? (j : Json) (name : String) : Option Json :=
  match j.member? name with
  | some null => none
  | found => found

def get? (α : Type) [FromJson α] (j : Json) (name : String) : Option α :=
  (j.given? name).bind fromJson?

def maybe? (α : Type) [FromJson α] (j : Json) (name : String) : Option (Option α) :=
  match j.given? name with
  | none => some none
  | some v => (fromJson? v).map some

def getD? {α : Type} [FromJson α] (j : Json) (name : String) (default : α) : Option α :=
  (j.maybe? α name).map (·.getD default)

def many? (α : Type) [FromJson α] (j : Json) (name : String) : Option (List α) := j.getD? name []

end ConwayTx.Json
