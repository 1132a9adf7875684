
namespace ConwayTx

inductive TableOrigin
  | implied
  | dotted
  | header
  | inline
  deriving DecidableEq, Repr

inductive Toml
  | str (s : String)
  | int (n : Int64)
  | float (x : Float)
  | bool (b : Bool)
  | moment
  | arr (items : List Toml)
  | table (origin : TableOrigin) (entries : List (String × Toml))
  | tables (items : List (List (String × Toml)))

namespace Toml

abbrev Entries := List (String × Toml)

/-- How many brackets and braces may be open at once, and how many parts a key may have. -/
def maxDepth : Nat := 80

def replace (key : String) (v : Toml) (es : Entries) : Entries :=
  es.map (fun e => if e.1 = key then (key, v) else e)

def within (f : Entries → Option Entries) : (path : List String) → Entries → Option Entries
  | [], es => f es
  | key :: path, es =>
    match es.lookup key with
    | none => (within f path []).map (fun sub => es ++ [(key, table .implied sub)])
    | some (table .inline _) => none
    | some (table origin sub) =>
      (within f path sub).map (fun sub => replace key (table origin sub) es)
    | some (tables items) =>
      (within f path (items.getLast?.getD [])).map (fun sub =>
        replace key (tables (items.dropLast ++ [sub])) es)
    | some _ => none

/-- Puts a value at a dotted key. Only headers inside the tables on the way, or other dotted keys,
may have brought these tables into being; of repeated tables the latest is meant. The table that
holds the value counts as made by a dotted key from then on, so no header of its own opens it. -/
def assign (v : Toml) : (path : List String) → Entries → Option Entries
  | [], _ => none
  | [key], es => if (es.lookup key).isSome then none else some (es ++ [(key, v)])
  | key :: path, es =>
    match es.lookup key with
    | none => (assign v path []).map (fun sub => es ++ [(key, table .dotted sub)])
    | some (table .implied sub) =>
      let origin := if path.length = 1 then .dotted else .implied
      (assign v path sub).map (fun sub => replace key (table origin sub) es)
    | some (table .dotted sub) =>
      (assign v path sub).map (fun sub => replace key (table .dotted sub) es)
    | some (tables items) =>
      if path.length = 1 then none
      else (assign v path (items.getLast?.getD [])).map (fun sub =>
        replace key (tables (items.dropLast ++ [sub])) es)
    | some _ => none

def openTable (key : String) (es : Entries) : Option Entries :=
  match es.lookup key with
  | none => some (es ++ [(key, table .header [])])
  | some (table .implied sub) => some (replace key (table .header sub) es)
  | some _ => none

def openNext (key : String) (es : Entries) : Option Entries :=
  match es.lookup key with
  | none => some (es ++ [(key, tables [[]])])
  | some (tables items) => some (replace key (tables (items ++ [[]])) es)
  | some _ => none

def header (doubled : Bool) (path : List String) (es : Entries) : Option Entries :=
  match path.getLast? with
  | none => none
  | some key => within (if doubled then openNext key else openTable key) path.dropLast es

end Toml

end ConwayTx
