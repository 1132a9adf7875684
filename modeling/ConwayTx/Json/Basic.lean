import ConwayTx.OrdMap

namespace ConwayTx

inductive Json
  | null
  | bool (b : Bool)
  | nat (n : UInt64)
  | neg (n : Int64)
  | float (x : Float)
  | str (s : String)
  | arr (items : List Json)
  | obj (members : List (String × Json))
  | unreadable

instance : Inhabited Json := ⟨.null⟩

instance : Ranked String where
  rank s := s.toList.map Char.toNat
  rank_inj h := by
    have : ∀ x y : Char, x.toNat = y.toNat → x = y := fun x y e =>
      Char.ext (UInt32.toNat_inj.mp e)
    exact String.toList_inj.mp ((List.map_inj_right this).mp h)

namespace Json

mutual

def isReadable : Json → Bool
  | arr items => allReadable items
  | obj members => membersReadable members
  | unreadable => false
  | _ => true

def allReadable : List Json → Bool
  | [] => true
  | j :: rest => isReadable j && allReadable rest

def membersReadable : List (String × Json) → Bool
  | [] => true
  | (_, j) :: rest => isReadable j && membersReadable rest

end

mutual

/-- The tree with the members of every object in the order of their names; of equal names the last
one counts. -/
def canonical : Json → Json
  | arr items => arr (canonicalAll items)
  | obj members => obj (OrdMap.ofList (canonicalMembers members)).toList
  | j => j

def canonicalAll : List Json → List Json
  | [] => []
  | j :: rest => canonical j :: canonicalAll rest

def canonicalMembers : List (String × Json) → List (String × Json)
  | [] => []
  | (name, j) :: rest => (name, canonical j) :: canonicalMembers rest

end

def members? : Json → Option (List (String × Json))
  | obj members => some members
  | _ => none

def items? : Json → Option (List Json)
  | arr items => some items
  | _ => none

def str? : Json → Option String
  | str s => some s
  | _ => none

def int? : Json → Option Int
  | nat n => some n.toNat
  | neg n => some n.toInt
  | _ => none

def member? (name : String) (j : Json) : Option Json :=
  j.members?.bind (·.lookup name)

end Json

end ConwayTx
