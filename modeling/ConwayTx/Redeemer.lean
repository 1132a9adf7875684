import ConwayTx.Script
import ConwayTx.Word

namespace ConwayTx

open Cbor (Item Reader)

inductive Purpose
  | spend
  | mint
  | cert
  | reward
  | vote
  | propose
  deriving DecidableEq, Repr

namespace Purpose

def all : List Purpose := [spend, mint, cert, reward, vote, propose]

def code : Purpose → Nat
  | spend => 0
  | mint => 1
  | cert => 2
  | reward => 3
  | vote => 4
  | propose => 5

def ofCode? : Int → Option Purpose
  | 0 => some spend
  | 1 => some mint
  | 2 => some cert
  | 3 => some reward
  | 4 => some vote
  | 5 => some propose
  | _ => none

def name : Purpose → String
  | spend => "Spend"
  | mint => "Mint"
  | cert => "Cert"
  | reward => "Reward"
  | vote => "Vote"
  | propose => "Propose"

def toItem (p : Purpose) : Item := .ofNat p.code

def read : Reader Purpose :=
  Reader.int.check (fun n =>
    match ofCode? n with
    | some p => .ok p
    | none => .error .malformed)

end Purpose

structure RedeemerPointer where
  purpose : Purpose
  index : UInt32
  deriving DecidableEq

namespace RedeemerPointer

instance : Ranked RedeemerPointer where
  rank p := [p.purpose.code, p.index.toNat]
  rank_inj {a b} h := by
    simp only [List.cons.injEq, and_true, UInt32.toNat_inj] at h
    obtain ⟨h₁, h₂⟩ := h
    cases a with | mk p _ => cases b with | mk q _ =>
    cases p <;> cases q <;> simp_all [Purpose.code]

def toItem (p : RedeemerPointer) : Item := .array 2 [p.purpose.toItem, .nat p.index.toUInt64]

/-- A pair; what an array holds beyond it is passed over. -/
def read : Reader RedeemerPointer :=
  Reader.arrayHeader.bind (fun length =>
    if length.any (fun n => decide (n < 2)) then Reader.fail .malformed
    else Purpose.read.bind (fun purpose =>
      Reader.uint32.bind (fun index =>
        (Reader.finishArray length 2).map (fun _ => ⟨purpose, index⟩))))

def describe (p : RedeemerPointer) : String :=
  s!"RedeemerPointer \x7b tag: {p.purpose.name}, index: {p.index} \x7d"

end RedeemerPointer

structure ExUnits where
  mem : UInt64
  steps : UInt64
  deriving DecidableEq, Repr

namespace ExUnits

def zero : ExUnits := ⟨0, 0⟩

def add (a b : ExUnits) : ExUnits := ⟨a.mem.saturatingAdd b.mem, a.steps.saturatingAdd b.steps⟩

def sum (us : List ExUnits) : ExUnits := us.foldl add zero

def toItem (u : ExUnits) : Item := .array 2 [.nat u.mem, .nat u.steps]

def read : Reader ExUnits :=
  Reader.arrayHeader.bind (fun _ =>
    Reader.nat.bind (fun mem => Reader.nat.map (fun steps => ⟨mem, steps⟩)))

def describe (u : ExUnits) : String := s!"ExUnits \x7b mem: {u.mem}, steps: {u.steps} \x7d"

end ExUnits

structure Redeemer where
  pointer : RedeemerPointer
  data : PlutusData
  units : ExUnits

namespace Redeemer

/-- A map from pointers to data and budgets, in the order of the pointers. -/
def mapItem (rs : List Redeemer) : Item :=
  .map (Ranked.sortOn pointer rs).length ((Ranked.sortOn pointer rs).map (fun r =>
    (r.pointer.toItem, .array 2 [r.data.toItem, r.units.toItem])))

end Redeemer

end ConwayTx
