import ConwayTx.Proofs.Bytes
import ConwayTx.Proofs.VarNat
import Mathlib.Logic.Function.Iterate
/-!
Numbers that follow each other in a byte string. From any position a read goes up to the first byte
whose high bit is clear, and succeeds just where a word holds the exact value of the groups up to
there. Numbers that were written one after the other are read one after the other.
-/

namespace ConwayTx.VarNat

def valueOf (bs : Bytes) : Nat := numberOf 128 (bs.map (fun b => b.toNat % 128))

@[simp] theorem valueOf_nil : valueOf [] = 0 := rfl

theorem valueOf_cons (b : UInt8) (bs : Bytes) :
    valueOf (b :: bs) = b.toNat % 128 * 128 ^ bs.length + valueOf bs := by
  rw [valueOf, List.map_cons, ← List.singleton_append, numberOf_append, List.length_map]
  simp [numberOf, valueOf]

structure EndsAt (bs : Bytes) (position stop : Nat) : Prop where
  le : position ≤ stop
  clear : ∃ b, bs[stop]? = some b ∧ b.toNat < 128
  set : ∀ i b, position ≤ i → i < stop → bs[i]? = some b → 128 ≤ b.toNat

def Groups (front : Bytes) : Prop :=
  ∃ high last, front = high ++ [last] ∧ (∀ b ∈ high, 128 ≤ b.toNat) ∧ last.toNat < 128

theorem spellsFrom_iff {acc n : Nat} {front : Bytes} :
    SpellsFrom acc front n ↔ Groups front ∧ n = acc * 128 ^ front.length + valueOf front := by
  constructor
  · intro h
    induction h with
    | @last acc n b low value =>
      refine ⟨⟨[], b, rfl, by simp, low⟩, ?_⟩
      simp [valueOf_cons, value, Nat.mod_eq_of_lt low]
    | @more acc n b bs high later ih =>
      obtain ⟨⟨before, last, rfl, set, clear⟩, value⟩ := ih
      refine ⟨⟨b :: before, last, rfl, List.forall_mem_cons.mpr ⟨high, set⟩, clear⟩, ?_⟩
      rw [value, valueOf_cons, List.length_cons, Nat.pow_succ']
      ring
  · rintro ⟨⟨high, last, rfl, set, clear⟩, rfl⟩
    induction high generalizing acc with
    | nil =>
      refine .last clear ?_
      simp [valueOf_cons, Nat.mod_eq_of_lt clear]
    | cons b before ih =>
      obtain ⟨high, set⟩ := List.forall_mem_cons.mp set
      refine .more high ?_
      have value : acc * 128 ^ (b :: before ++ [last]).length + valueOf (b :: before ++ [last]) =
          (acc * 128 + b.toNat % 128) * 128 ^ (before ++ [last]).length +
            valueOf (before ++ [last]) := by
        rw [List.cons_append, valueOf_cons, List.length_cons, Nat.pow_succ']
        ring
      rw [value]
      exact ih set

theorem read_eq_ok_iff {bs rest : Bytes} {n : UInt64} :
    read bs = (.ok n, rest) ↔ ∃ front, bs = front ++ rest ∧ Groups front ∧
      n.toNat = valueOf front := by
  have spells : ∀ front, SpellsFrom 0 front n.toNat ↔ Groups front ∧ n.toNat = valueOf front := by
    intro front
    rw [spellsFrom_iff, Nat.zero_mul, Nat.zero_add]
  simp only [← spells]
  constructor
  · exact exists_spells_of_readFrom
  · rintro ⟨front, rfl, h⟩
    exact readFrom_of_spells h rest

theorem endsAt_iff {bs : Bytes} {position stop : Nat} :
    EndsAt bs position stop ↔ ∃ high last rest, bs.drop position = high ++ last :: rest ∧
      position + high.length = stop ∧ (∀ b ∈ high, 128 ≤ b.toNat) ∧ last.toNat < 128 := by
  constructor
  · rintro ⟨le, ⟨last, here, clear⟩, set⟩
    obtain ⟨k, rfl⟩ := Nat.exists_eq_add_of_le le
    rw [← List.getElem?_drop] at here
    obtain ⟨inside, here⟩ := List.getElem?_eq_some_iff.mp here
    have length : ((bs.drop position).take k).length = k := List.length_take_of_le (by omega)
    refine ⟨(bs.drop position).take k, last, (bs.drop position).drop (k + 1), ?_, by rw [length],
      fun b mem => ?_, clear⟩
    · rw [← here, ← List.drop_eq_getElem_cons inside, List.take_append_drop]
    · obtain ⟨i, before, rfl⟩ := List.mem_iff_getElem.mp mem
      rw [length] at before
      refine set (position + i) _ (Nat.le_add_right _ _) (by omega) ?_
      rw [List.getElem_take, ← List.getElem?_drop, List.getElem?_eq_getElem]
  · rintro ⟨high, last, rest, split, rfl, set, clear⟩
    have at_ (i : Nat) : bs[position + i]? = (high ++ last :: rest)[i]? := by
      rw [← split, List.getElem?_drop]
    refine ⟨Nat.le_add_right _ _, ⟨last, ?_, clear⟩, fun i b le before here => ?_⟩
    · simp [at_]
    · obtain ⟨k, rfl⟩ := Nat.exists_eq_add_of_le le
      rw [at_, List.getElem?_append_left (by omega)] at here
      exact set b (List.mem_of_getElem? here)

theorem split_at {bs high rest : Bytes} {position : Nat} {last : UInt8}
    (h : bs.drop position = high ++ last :: rest) :
    bs.extract position (position + high.length + 1) = high ++ [last] ∧
      bs.drop (position + high.length + 1) = rest := by
  have length : position + high.length + 1 - position = (high ++ [last]).length := by
    rw [List.length_append, List.length_singleton]
    omega
  have split : bs.drop position = (high ++ [last]) ++ rest := by
    rw [h, List.append_assoc, List.singleton_append]
  constructor
  · rw [List.extract_eq_take_drop, length, split, List.take_left]
  · rw [Nat.add_assoc, ← List.drop_drop, split]
    exact List.drop_left' (by rw [List.length_append, List.length_singleton])

theorem read_drop_eq_ok_iff {bs rest : Bytes} {position : Nat} {n : UInt64} :
    read (bs.drop position) = (.ok n, rest) ↔
      ∃ stop, EndsAt bs position stop ∧ n.toNat = valueOf (bs.extract position (stop + 1)) ∧
        rest = bs.drop (stop + 1) := by
  rw [read_eq_ok_iff]
  constructor
  · rintro ⟨_, split, ⟨high, last, rfl, set, clear⟩, value⟩
    rw [List.append_assoc, List.singleton_append] at split
    obtain ⟨front, behind⟩ := split_at split
    refine ⟨position + high.length, endsAt_iff.mpr ⟨high, last, rest, split, rfl, set, clear⟩, ?_⟩
    rw [front, behind]
    exact ⟨value, rfl⟩
  · rintro ⟨stop, ends, value, rfl⟩
    obtain ⟨high, last, rest, split, rfl, set, clear⟩ := endsAt_iff.mp ends
    obtain ⟨front, behind⟩ := split_at split
    rw [front] at value
    refine ⟨high ++ [last], ?_, ⟨high, last, rfl, set, clear⟩, value⟩
    rw [split, behind, List.append_assoc, List.singleton_append]

theorem read_encode_append (n : UInt64) (rest : Bytes) : read (encode n ++ rest) = (.ok n, rest) :=
  readFrom_of_spells (encode_spells n) rest

def left (count : Nat) (bs : Bytes) : Bytes := (fun bs => (read bs).2)^[count] bs

theorem readMany_encodeAll_append (ns : List UInt64) (rest : Bytes) :
    (readMany ns.length (encodeAll ns ++ rest)).map Prod.fst = ns.map .ok ∧
      left ns.length (encodeAll ns ++ rest) = rest := by
  induction ns with
  | nil => exact ⟨rfl, rfl⟩
  | cons n ns ih =>
    have first : read (encodeAll (n :: ns) ++ rest) = (.ok n, encodeAll ns ++ rest) := by
      rw [encodeAll, List.flatMap_cons, List.append_assoc]
      exact read_encode_append n _
    rw [List.length_cons, readMany, left, Function.iterate_succ_apply, first]
    exact ⟨congrArg _ ih.1, ih.2⟩

/-- Numbers that are written in a row are read back, and nothing is left. Whatever the bytes, a read
from some position succeeds just if a byte with a clear high bit follows and a word holds the exact
value of the groups up to the first of these; it gives that value, and goes on behind that byte. -/
theorem numbers_read_exactly :
    (∀ ns : List UInt64, (readMany ns.length (encodeAll ns)).map Prod.fst = ns.map .ok ∧
      left ns.length (encodeAll ns) = []) ∧
    ∀ (bs : Bytes) (position : Nat),
      ((∃ n rest, read (bs.drop position) = (.ok n, rest)) ↔
        ∃ stop, EndsAt bs position stop ∧
          valueOf (bs.extract position (stop + 1)) < UInt64.size) ∧
      ∀ n rest, read (bs.drop position) = (.ok n, rest) ↔
        ∃ stop, EndsAt bs position stop ∧ n.toNat = valueOf (bs.extract position (stop + 1)) ∧
          rest = bs.drop (stop + 1) := by
  refine ⟨fun ns => ?_, fun bs position => ⟨?_, fun n rest => read_drop_eq_ok_iff⟩⟩
  · have back := readMany_encodeAll_append ns []
    rwa [List.append_nil] at back
  · simp only [read_drop_eq_ok_iff]
    constructor
    · rintro ⟨n, _, stop, ends, value, _⟩
      exact ⟨stop, ends, value ▸ n.toNat_lt_size⟩
    · rintro ⟨stop, ends, fits⟩
      exact ⟨.ofNatLT _ fits, _, stop, ends, UInt64.toNat_ofNatLT, rfl⟩

/-- The largest word takes ten bytes, and the number after it, which takes as many, is no word. -/
example : read [0x81, 0xff, 0xff, 0xff, 0xff, 0xff, 0xff, 0xff, 0xff, 0x7f] =
    (.ok 0xffffffffffffffff, []) ∧
    (read [0x82, 0x80, 0x80, 0x80, 0x80, 0x80, 0x80, 0x80, 0x80, 0x00]).1 = .error .overflow := by
  decide

end ConwayTx.VarNat
