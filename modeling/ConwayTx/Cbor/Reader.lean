import ConwayTx.Cbor.Item
import ConwayTx.DecodeError
import ConwayTx.Hash

namespace ConwayTx.Cbor

abbrev Reader (α : Type) := Bytes → Except DecodeError (α × Bytes)

namespace Reader

variable {α β : Type}

def pure (a : α) : Reader α := fun bs => .ok (a, bs)

def bind (r : Reader α) (f : α → Reader β) : Reader β := fun bs =>
  match r bs with
  | .ok (a, rest) => f a rest
  | .error e => .error e

def fail (e : DecodeError) : Reader α := fun _ => .error e

def map (f : α → β) (r : Reader α) : Reader β := r.bind (fun a => pure (f a))

def check (r : Reader α) (f : α → Except DecodeError β) : Reader β :=
  r.bind (fun a bs => (f a).map (·, bs))

theorem bind_ok {r : Reader α} {f : α → Reader β} {bs rest : Bytes} {a : α}
    (h : r bs = .ok (a, rest)) : r.bind f bs = f a rest := by
  simp [bind, h]

theorem bind_eq_ok_iff {r : Reader α} {f : α → Reader β} {bs : Bytes} {x : β × Bytes} :
    r.bind f bs = .ok x ↔ ∃ a rest, r bs = .ok (a, rest) ∧ f a rest = .ok x := by
  unfold bind
  match r bs with
  | .ok (a, rest) =>
    exact ⟨fun h => ⟨a, rest, rfl, h⟩, by rintro ⟨_, _, ⟨⟩, h⟩; exact h⟩
  | .error e => simp

def peek : Reader UInt8 := fun bs =>
  match bs with
  | [] => .error .malformed
  | b :: _ => .ok (b, bs)

def byte : Reader UInt8 := fun bs =>
  match bs with
  | [] => .error .malformed
  | b :: rest => .ok (b, rest)

def take (n : Nat) : Reader Bytes := fun bs =>
  match Bytes.splitAt? n bs with
  | some (front, rest) => .ok (front, rest)
  | none => .error .malformed

def major (b : UInt8) : Nat := b.toNat / 32

def info (b : UInt8) : Nat := b.toNat % 32

def argument (b : UInt8) : Reader UInt64 :=
  let i := info b
  if i < 24 then pure (UInt64.ofNat i)
  else if i = 24 then (take 1).map (fun bs => UInt64.ofNat (Bytes.toNat bs))
  else if i = 25 then (take 2).map (fun bs => UInt64.ofNat (Bytes.toNat bs))
  else if i = 26 then (take 4).map (fun bs => UInt64.ofNat (Bytes.toNat bs))
  else if i = 27 then (take 8).map (fun bs => UInt64.ofNat (Bytes.toNat bs))
  else fail .malformed

def header (m : Nat) : Reader UInt64 :=
  byte.bind (fun b => if major b = m then argument b else fail .malformed)

def nat : Reader UInt64 := header 0

def natBelow (bound : Nat) : Reader Nat :=
  nat.check (fun n => if n.toNat < bound then .ok n.toNat else .error .malformed)

def uint8 : Reader UInt8 := (natBelow UInt8.size).map UInt8.ofNat

def uint16 : Reader UInt16 := (natBelow UInt16.size).map UInt16.ofNat

def uint32 : Reader UInt32 := (natBelow UInt32.size).map UInt32.ofNat

def int : Reader Int :=
  byte.bind (fun b =>
    if major b = 0 then (argument b).map (fun n => (n.toNat : Int))
    else if major b = 1 then (argument b).map (fun n => -1 - (n.toNat : Int))
    else fail .malformed)

def bytes : Reader Bytes := (header 2).bind (fun n => take n.toNat)

def text : Reader String :=
  ((header 3).bind (fun n => take n.toNat)).check (fun bs =>
    match String.fromUTF8? ⟨bs.toArray⟩ with
    | some t => .ok t
    | none => .error .malformed)

def tag : Reader UInt64 := header 6

/-- The announced length of a container of major type `m`; none where it is indefinite. -/
def containerHeader (m : Nat) : Reader (Option UInt64) :=
  byte.bind (fun b =>
    if major b ≠ m then fail .malformed
    else if info b = 31 then pure none
    else (argument b).map some)

def arrayHeader : Reader (Option UInt64) := containerHeader 4

def mapHeader : Reader (Option UInt64) := containerHeader 5

def times : (n : Nat) → Reader α → Reader (List α)
  | 0, _ => pure []
  | n + 1, r => r.bind (fun a => (times n r).map (a :: ·))

def untilBreak : (fuel : Nat) → Reader α → Reader (List α)
  | 0, _ => fail .malformed
  | fuel + 1, r => peek.bind (fun b =>
      if b = breakByte then byte.map (fun _ => [])
      else r.bind (fun a => (untilBreak fuel r).map (a :: ·)))

/-- As many values as announced, or up to the break. Each value takes at least one byte. -/
def repeated (length : Option UInt64) (r : Reader α) : Reader (List α) := fun bs =>
  match length with
  | some n => times n.toNat r bs
  | none => untilBreak (bs.length + 1) r bs

def arrayOf (r : Reader α) : Reader (List α) := arrayHeader.bind (fun n => repeated n r)

def mapOf (key : Reader α) (value : Reader β) : Reader (List (α × β)) :=
  mapHeader.bind (fun n => repeated n (key.bind (fun k => value.map (fun v => (k, v)))))

def chunkedBytes : Reader Bytes :=
  peek.bind (fun b =>
    if b = initialByte 2 31 then
      byte.bind (fun _ => (repeated none bytes).map List.flatten)
    else bytes)

/-- Passes over one item, whatever it holds; `depth` bounds how deep it nests. -/
def skip : (depth : Nat) → Reader Unit
  | 0 => fail .malformed
  | depth + 1 => peek.bind (fun b =>
      if major b = 0 ∨ major b = 1 then int.map (fun _ => ())
      else if major b = 2 then chunkedBytes.map (fun _ => ())
      else if b = initialByte 3 31 then
        byte.bind (fun _ => (repeated none text).map (fun _ => ()))
      else if major b = 3 then text.map (fun _ => ())
      else if major b = 4 then (arrayOf (skip depth)).map (fun _ => ())
      else if major b = 5 then (mapOf (skip depth) (skip depth)).map (fun _ => ())
      else if major b = 6 then tag.bind (fun _ => skip depth)
      else (header 7).map (fun _ => ()))

def finishArray (length : Option UInt64) (n : Nat) : Reader Unit := fun bs =>
  match length with
  | some total => (times (total.toNat - n) (skip bs.length)).map (fun _ => ()) bs
  | none => (repeated none (skip bs.length)).map (fun _ => ()) bs

def hash (width : Nat) : Reader (Hash width) :=
  bytes.check (fun bs =>
    match Hash.ofBytes? bs with
    | some h => .ok h
    | none => .error (.hashLength width bs.length))

/-- The first item of the bytes; what follows it is not looked at. -/
def run (r : Reader α) (bs : Bytes) : Except DecodeError α := (r bs).map (·.1)

end Reader

end ConwayTx.Cbor

namespace ConwayTx.Hash

def toItem {width : Nat} (h : Hash width) : Cbor.Item := .bytes h.bytes

end ConwayTx.Hash
