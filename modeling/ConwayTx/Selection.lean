import ConwayTx.Utxo

namespace ConwayTx

structure Selection where
  selected : List Utxo
  remaining : List Utxo

/-- Chooses among outputs, on top of those that are spent anyway, or tells what no choice reaches.
-/
abbrev Selector := (spent available : List Utxo) → (target : Value) → Except Value Selection

namespace Utxo

def total (us : List Utxo) : Value := Value.sum (us.map value)

/-- More of a quantity first; equal amounts in the order of their references. -/
def atLeast (quantity : Value → UInt64) (a b : Utxo) : Bool :=
  decide (quantity b.value < quantity a.value) ||
    (quantity a.value == quantity b.value && !decide (Ranked.Precedes b.ref a.ref))

def largestFirst (quantity : Value → UInt64) (us : List Utxo) : List Utxo :=
  us.mergeSort (atLeast quantity)

def sortByRef (us : List Utxo) : List Utxo := Ranked.sortOn ref us

end Utxo

namespace Selection

structure Progress extends Selection where
  total : Value

/-- Takes from the front as long as the quantity falls short of `needed` and the next output holds
some of it. -/
def takeUntil (quantity : Value → UInt64) (needed : UInt64) : Progress → List Utxo → Progress
  | p, [] => { p with remaining := [] }
  | p, u :: rest =>
    if quantity p.total < needed ∧ 0 < quantity u.value then
      takeUntil quantity needed
        { p with selected := p.selected ++ [u], total := p.total + u.value } rest
    else { p with remaining := u :: rest }

def cover (p : Progress) (quantity : Value → UInt64) (needed : UInt64) : Progress :=
  takeUntil quantity needed p (Utxo.largestFirst quantity p.remaining)

def start (spent available : List Utxo) : Progress :=
  { selected := [], remaining := available, total := Utxo.total spent }

def coverAll (p : Progress) (target : Value) : Progress :=
  let assets := target.assets.entries.foldl (fun p e => cover p (·.quantity e.1) e.2) p
  cover assets (·.lovelace) target.lovelace

def largestFirst : Selector := fun spent available target =>
  let p := coverAll (start spent available) target
  if p.total.covers target then .ok ⟨p.selected, Utxo.sortByRef p.remaining⟩
  else .error (target.saturatingSub p.total)

def everything : Selector := fun _ available _ => .ok ⟨available, []⟩

def nothing : Selector := fun _ available _ => .ok ⟨[], available⟩

end Selection

end ConwayTx
