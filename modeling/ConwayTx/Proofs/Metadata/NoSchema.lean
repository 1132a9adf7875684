import ConwayTx.Metadata.NoSchema
import ConwayTx.Proofs.OrdMap
import ConwayTx.Proofs.Text.Decimal
import ConwayTx.Proofs.Text.Hex
import Mathlib.Logic.Relation
/-!
Which JSON can be metadata. A tree is read if no part of it is of a kind that metadata lack and no
string in it is too long, where what counts is the bytes that the string becomes; and all that is
read has an encoding.
-/

namespace ConwayTx

open Cbor (Item)

namespace Json

def children : Json → List Json
  | arr items => items
  | obj members => members.map Prod.snd
  | _ => []

def Within : Json → Json → Prop := Relation.ReflTransGen (fun c j => c ∈ j.children)

theorem sizeOf_lt_of_mem_children {c j : Json} (mem : c ∈ j.children) : sizeOf c < sizeOf j := by
  cases j with
  | arr items =>
    have inside : sizeOf c < sizeOf items := List.sizeOf_lt_of_mem mem
    simp only [arr.sizeOf_spec]
    omega
  | obj members =>
    obtain ⟨m, there, rfl⟩ := List.mem_map.mp mem
    have inside := List.sizeOf_lt_of_mem there
    have part : sizeOf m.2 < sizeOf m := by
      cases m
      simp only [Prod.mk.sizeOf_spec]
      omega
    simp only [obj.sizeOf_spec]
    omega
  | _ => cases mem

theorem children_induction {P : Json → Prop} (step : ∀ j, (∀ c ∈ j.children, P c) → P j)
    (j : Json) : P j :=
  step j fun c _ => children_induction step c
termination_by sizeOf j
decreasing_by exact sizeOf_lt_of_mem_children ‹_›

end Json

namespace Metadatum

/-! ### Strings and names -/

def SpellsBytes (s : String) (bs : Bytes) : Prop :=
  ∃ digits, s.toList = '0' :: 'x' :: digits ∧ Hex.Spells digits bs

def SpellsInt (s : String) (n : Int64) : Prop := Decimal.Spells s.toList n.toInt

structure Short (s : String) : Prop where
  bytes : ∀ bs, SpellsBytes s bs → bs.length ≤ maxLength
  text : (∀ bs, ¬ SpellsBytes s bs) → s.utf8ByteSize ≤ maxLength

theorem not_spellsInt_of_spellsBytes {s : String} {bs : Bytes} {n : Int64}
    (h : SpellsBytes s bs) : ¬ SpellsInt s n := by
  obtain ⟨digits, opens, _⟩ := h
  rw [SpellsInt, opens, Decimal.spells_unsigned_iff (by simp) (by simp)]
  rintro ⟨_, denotes, _⟩
  have letter := denotes.digits 'x' (by simp)
  exact absurd letter (by decide)

theorem ofString_of_spellsBytes {s : String} {bs : Bytes} (h : SpellsBytes s bs) :
    ofString s = if bs.length ≤ maxLength then .ok (bytes bs) else .error (.tooLong bs.length) := by
  obtain ⟨digits, opens, spells⟩ := h
  have decoded : Hex.decode (String.ofList digits) = .ok bs :=
    Hex.decode_eq_ok_iff.mpr (by rwa [String.toList_ofList])
  simp only [ofString, opens, decoded, Except.toOption]

theorem ofString_of_not_spellsBytes {s : String} (h : ∀ bs, ¬ SpellsBytes s bs) :
    ofString s = if s.utf8ByteSize ≤ maxLength then .ok (text s)
      else .error (.tooLong s.utf8ByteSize) := by
  unfold ofString
  simp only
  split
  · rename_i bs decoded
    split at decoded
    · rename_i digits opens
      cases read : Hex.decode (String.ofList digits) with
      | error e =>
        rw [read] at decoded
        cases decoded
      | ok found =>
        have spells := Hex.decode_eq_ok_iff.mp read
        rw [String.toList_ofList] at spells
        exact absurd ⟨digits, opens, spells⟩ (h found)
    · cases decoded
  · rfl

theorem ofString_cases {s : String} {m : Metadatum} (h : ofString s = .ok m) :
    (∃ bs, SpellsBytes s bs ∧ bs.length ≤ maxLength ∧ m = bytes bs) ∨
      s.utf8ByteSize ≤ maxLength ∧ m = text s := by
  by_cases spelled : ∃ bs, SpellsBytes s bs
  · obtain ⟨bs, spells⟩ := spelled
    rw [ofString_of_spellsBytes spells] at h
    split at h <;> cases h
    exact .inl ⟨bs, spells, ‹_›, rfl⟩
  · rw [ofString_of_not_spellsBytes (not_exists.mp spelled)] at h
    split at h <;> cases h
    exact .inr ⟨‹_›, rfl⟩

theorem exists_ofString_iff {s : String} : (∃ m, ofString s = .ok m) ↔ Short s := by
  constructor
  · rintro ⟨m, read⟩
    refine ⟨fun bs h => ?bytes, fun h => ?text⟩
    case bytes =>
      rw [ofString_of_spellsBytes h] at read
      split at read
      · assumption
      · cases read
    case text =>
      rw [ofString_of_not_spellsBytes h] at read
      split at read
      · assumption
      · cases read
  · intro short
    by_cases spelled : ∃ bs, SpellsBytes s bs
    · obtain ⟨bs, h⟩ := spelled
      rw [ofString_of_spellsBytes h, if_pos (short.bytes bs h)]
      exact ⟨_, rfl⟩
    · rw [not_exists] at spelled
      rw [ofString_of_not_spellsBytes spelled, if_pos (short.text spelled)]
      exact ⟨_, rfl⟩

theorem ofName_of_spellsInt {name : String} {n : Int64} (h : SpellsInt name n) :
    ofName name = .ok (int (Int128.ofInt64 n)) := by
  rw [ofName, Decimal.int64_eq_ok_iff.mpr h]

theorem ofName_of_not_spellsInt {name : String} (h : ∀ n, ¬ SpellsInt name n) :
    ofName name = ofString name := by
  rw [ofName]
  split
  · rename_i n read
    exact absurd (Decimal.int64_eq_ok_iff.mp read) (h n)
  · rfl

theorem exists_ofName_iff {name : String} :
    (∃ m, ofName name = .ok m) ↔ (∃ n, SpellsInt name n) ∨ Short name := by
  by_cases spelled : ∃ n, SpellsInt name n
  · obtain ⟨n, h⟩ := spelled
    rw [ofName_of_spellsInt h]
    exact iff_of_true ⟨_, rfl⟩ (.inl ⟨n, h⟩)
  · rw [ofName_of_not_spellsInt (not_exists.mp spelled), exists_ofString_iff]
    exact (or_iff_right spelled).symm

/-! ### Trees -/

def ofMember (m : String × Json) : Except MetadataError (Metadatum × Metadatum) := do
  let key ← ofName m.1
  let value ← ofJson m.2
  return (key, value)

theorem ofItems_eq (items : List Json) : ofItems items = items.mapM ofJson := by
  induction items with
  | nil => rfl
  | cons j rest ih => rw [ofItems, List.mapM_cons, ih]

theorem ofMembers_eq (members : List (String × Json)) :
    ofMembers members = members.mapM ofMember := by
  induction members with
  | nil => rfl
  | cons m rest ih =>
    obtain ⟨name, j⟩ := m
    rw [ofMembers, List.mapM_cons, ih, ofMember]
    simp only [bind_assoc, pure_bind]

theorem ofJson_arr_eq_ok_iff {items : List Json} {m : Metadatum} :
    ofJson (.arr items) = .ok m ↔ ∃ ms, items.mapM ofJson = .ok ms ∧ array ms = m := by
  rw [ofJson, ofItems_eq, Except.map_eq_ok]

theorem ofJson_obj_eq_ok_iff {members : List (String × Json)} {m : Metadatum} :
    ofJson (.obj members) = .ok m ↔ ∃ ps, members.mapM ofMember = .ok ps ∧ map ps = m := by
  rw [ofJson, ofMembers_eq, Except.map_eq_ok]

theorem ofMember_eq_ok_iff {m : String × Json} {p : Metadatum × Metadatum} :
    ofMember m = .ok p ↔ ofName m.1 = .ok p.1 ∧ ofJson m.2 = .ok p.2 := by
  simp only [ofMember, Except.bind_eq_ok, Except.pure_eq_ok]
  constructor
  · rintro ⟨key, name, value, read, rfl⟩
    exact ⟨name, read⟩
  · rintro ⟨name, read⟩
    exact ⟨p.1, name, p.2, read, rfl⟩

theorem exists_ofJson_arr_iff {items : List Json} :
    (∃ m, ofJson (.arr items) = .ok m) ↔ ∀ j ∈ items, ∃ m, ofJson j = .ok m := by
  rw [← Except.exists_mapM_eq_ok]
  simp only [ofJson_arr_eq_ok_iff]
  exact ⟨fun ⟨_, ms, read, _⟩ => ⟨ms, read⟩, fun ⟨ms, read⟩ => ⟨_, ms, read, rfl⟩⟩

theorem exists_ofJson_obj_iff {members : List (String × Json)} :
    (∃ m, ofJson (.obj members) = .ok m) ↔
      ∀ m ∈ members, (∃ key, ofName m.1 = .ok key) ∧ ∃ value, ofJson m.2 = .ok value := by
  have each : (∃ m, ofJson (.obj members) = .ok m) ↔ ∃ ps, members.mapM ofMember = .ok ps := by
    simp only [ofJson_obj_eq_ok_iff]
    exact ⟨fun ⟨_, ps, read, _⟩ => ⟨ps, read⟩, fun ⟨ps, read⟩ => ⟨_, ps, read, rfl⟩⟩
  rw [each, Except.exists_mapM_eq_ok]
  refine forall₂_congr fun m _ => ?_
  simp only [ofMember_eq_ok_iff]
  exact ⟨fun ⟨p, name, read⟩ => ⟨⟨p.1, name⟩, p.2, read⟩,
    fun ⟨⟨key, name⟩, value, read⟩ => ⟨(key, value), name, read⟩⟩

theorem exists_ofJson_of_mem_children {c j : Json} (mem : c ∈ j.children)
    (h : ∃ m, ofJson j = .ok m) : ∃ m, ofJson c = .ok m := by
  cases j with
  | arr items => exact exists_ofJson_arr_iff.mp h c mem
  | obj members =>
    obtain ⟨m, there, rfl⟩ := List.mem_map.mp mem
    exact (exists_ofJson_obj_iff.mp h m there).2
  | _ => cases mem

theorem exists_ofJson_of_within {x j : Json} (part : x.Within j) (h : ∃ m, ofJson j = .ok m) :
    ∃ m, ofJson x = .ok m := by
  induction part with
  | refl => exact h
  | tail _ mem ih => exact ih (exists_ofJson_of_mem_children mem h)

/-- JSON that metadata can express: no part of it is of another kind, every number in it is an
integer of 64 bits, and its strings and names are short, but for names that become integers. -/
structure Expressible (j : Json) : Prop where
  not_null : ¬ Json.null.Within j
  not_bool : ∀ b, ¬ (Json.bool b).Within j
  not_float : ∀ x, ¬ (Json.float x).Within j
  not_unreadable : ¬ Json.unreadable.Within j
  strings : ∀ s, (Json.str s).Within j → Short s
  names : ∀ members, (Json.obj members).Within j →
    ∀ m ∈ members, (∃ n, SpellsInt m.1 n) ∨ Short m.1

theorem Expressible.child {c j : Json} (h : Expressible j) (mem : c ∈ j.children) :
    Expressible c where
  not_null part := h.not_null (part.tail mem)
  not_bool b part := h.not_bool b (part.tail mem)
  not_float x part := h.not_float x (part.tail mem)
  not_unreadable part := h.not_unreadable (part.tail mem)
  strings s part := h.strings s (part.tail mem)
  names members part := h.names members (part.tail mem)

theorem Expressible.exists_ofJson {j : Json} (h : Expressible j) : ∃ m, ofJson j = .ok m := by
  induction j using Json.children_induction with
  | step j ih =>
    replace ih := fun c mem => ih c mem (h.child mem)
    cases j with
    | null => exact absurd .refl h.not_null
    | bool b => exact absurd .refl (h.not_bool b)
    | nat n => exact ⟨_, rfl⟩
    | neg n => exact ⟨_, rfl⟩
    | float x => exact absurd .refl (h.not_float x)
    | str s => exact exists_ofString_iff.mpr (h.strings s .refl)
    | arr items => exact exists_ofJson_arr_iff.mpr ih
    | obj members =>
      refine exists_ofJson_obj_iff.mpr fun m mem => ⟨?_, ih m.2 (List.mem_map_of_mem mem)⟩
      exact exists_ofName_iff.mpr (h.names members .refl m mem)
    | unreadable => exact absurd .refl h.not_unreadable

theorem expressible_of_ofJson {j : Json} (h : ∃ m, ofJson j = .ok m) : Expressible j := by
  have within : ∀ x : Json, x.Within j → ∃ m, ofJson x = .ok m :=
    fun _ part => exists_ofJson_of_within part h
  refine ⟨fun part => ?_, fun b part => ?_, fun x part => ?_, fun part => ?_,
    fun s part => ?strings, fun members part m mem => ?names⟩
  case strings => exact exists_ofString_iff.mp (within _ part)
  case names => exact exists_ofName_iff.mp (exists_ofJson_obj_iff.mp (within _ part) m mem).1
  all_goals
    obtain ⟨m, read⟩ := within _ part
    cases read

/-! ### What is read can be written -/

def toEntry (p : Metadatum × Metadatum) : Except MetadataError (Item × Item) := do
  let key ← toItem p.1
  let value ← toItem p.2
  return (key, value)

theorem itemsOf_eq (ms : List Metadatum) : itemsOf ms = ms.mapM toItem := by
  induction ms with
  | nil => rfl
  | cons m rest ih => rw [itemsOf, List.mapM_cons, ih]

theorem entriesOf_eq (ps : List (Metadatum × Metadatum)) : entriesOf ps = ps.mapM toEntry := by
  induction ps with
  | nil => rfl
  | cons p rest ih =>
    obtain ⟨key, value⟩ := p
    rw [entriesOf, List.mapM_cons, ih, toEntry]
    simp only [bind_assoc, pure_bind]

theorem toEntry_eq_ok_iff {p : Metadatum × Metadatum} {e : Item × Item} :
    toEntry p = .ok e ↔ p.1.toItem = .ok e.1 ∧ p.2.toItem = .ok e.2 := by
  simp only [toEntry, Except.bind_eq_ok, Except.pure_eq_ok]
  constructor
  · rintro ⟨key, writtenKey, value, writtenValue, rfl⟩
    exact ⟨writtenKey, writtenValue⟩
  · rintro ⟨writtenKey, writtenValue⟩
    exact ⟨e.1, writtenKey, e.2, writtenValue, rfl⟩

theorem isPlain_iff {n : Int128} :
    n.isPlain = true ↔ -(UInt64.size : Int) ≤ n.toInt ∧ n.toInt < UInt64.size := by
  simp [Int128.isPlain]

theorem isPlain_ofUInt64 (n : UInt64) : (Int128.ofUInt64 n).isPlain = true := by
  have := n.toNat_lt_size
  rw [isPlain_iff, Int128.ofUInt64]
  dsimp only
  omega

theorem isPlain_ofInt64 (n : Int64) : (Int128.ofInt64 n).isPlain = true := by
  have low := n.le_toInt
  have high := n.toInt_lt
  rw [isPlain_iff, Int128.ofInt64, UInt64.size]
  dsimp only
  omega

theorem exists_toItem_int {n : Int128} (plain : n.isPlain = true) :
    ∃ item, (int n).toItem = .ok item := by
  rw [toItem, if_pos plain]
  exact ⟨_, rfl⟩

theorem exists_toItem_of_ofString {s : String} {m : Metadatum} (h : ofString s = .ok m) :
    ∃ item, m.toItem = .ok item := by
  rcases ofString_cases h with ⟨bs, _, _, rfl⟩ | ⟨_, rfl⟩
  · exact ⟨_, rfl⟩
  · exact ⟨_, rfl⟩

theorem exists_toItem_of_ofName {name : String} {key : Metadatum} (h : ofName name = .ok key) :
    ∃ item, key.toItem = .ok item := by
  by_cases spelled : ∃ n, SpellsInt name n
  · obtain ⟨n, spells⟩ := spelled
    rw [ofName_of_spellsInt spells] at h
    cases h
    exact exists_toItem_int (isPlain_ofInt64 n)
  · rw [ofName_of_not_spellsInt (not_exists.mp spelled)] at h
    exact exists_toItem_of_ofString h

theorem exists_toItem_array {ms : List Metadatum} (each : ∀ m ∈ ms, ∃ item, m.toItem = .ok item) :
    ∃ item, (array ms).toItem = .ok item := by
  obtain ⟨items, written⟩ := Except.exists_mapM_eq_ok.mpr each
  rw [toItem, itemsOf_eq, written]
  exact ⟨_, rfl⟩

theorem exists_toItem_map {ps : List (Metadatum × Metadatum)}
    (each : ∀ p ∈ ps, (∃ item, p.1.toItem = .ok item) ∧ ∃ item, p.2.toItem = .ok item) :
    ∃ item, (map ps).toItem = .ok item := by
  have entries : ∀ p ∈ ps, ∃ entry, toEntry p = .ok entry := by
    intro p mem
    obtain ⟨⟨key, writtenKey⟩, value, writtenValue⟩ := each p mem
    rw [toEntry, writtenKey, writtenValue]
    exact ⟨_, rfl⟩
  obtain ⟨items, written⟩ := Except.exists_mapM_eq_ok.mpr entries
  rw [toItem, entriesOf_eq, written]
  exact ⟨_, rfl⟩

theorem exists_toItem_of_ofJson {j : Json} {m : Metadatum} (h : ofJson j = .ok m) :
    ∃ item, m.toItem = .ok item := by
  induction j using Json.children_induction generalizing m with
  | step j ih =>
    cases j with
    | nat n =>
      cases h
      exact exists_toItem_int (isPlain_ofUInt64 n)
    | neg n =>
      cases h
      exact exists_toItem_int (isPlain_ofInt64 n)
    | str s => exact exists_toItem_of_ofString h
    | arr items =>
      obtain ⟨ms, read, rfl⟩ := ofJson_arr_eq_ok_iff.mp h
      refine exists_toItem_array fun m mem => ?_
      obtain ⟨j, there, from_⟩ := Except.exists_of_mem_mapM read mem
      exact ih j there from_
    | obj members =>
      obtain ⟨ps, read, rfl⟩ := ofJson_obj_eq_ok_iff.mp h
      refine exists_toItem_map fun p mem => ?_
      obtain ⟨member, there, from_⟩ := Except.exists_of_mem_mapM read mem
      obtain ⟨name, value⟩ := ofMember_eq_ok_iff.mp from_
      exact ⟨exists_toItem_of_ofName name, ih member.2 (List.mem_map_of_mem there) value⟩
    | _ => cases h

end Metadatum

theorem Metadata.exists_encode {a : Metadata}
    (each : ∀ label m, a.get? label = some m → ∃ item, m.toItem = .ok item) :
    ∃ bytes, a.encode = .ok bytes := by
  have entries : ∀ e ∈ a.toList, ∃ entry,
      (e.2.toItem.map fun item => (Item.nat e.1, item)) = .ok entry := by
    intro e mem
    obtain ⟨item, written⟩ := each e.1 e.2 (OrdMap.get?_eq_some_iff.mpr mem)
    rw [written]
    exact ⟨_, rfl⟩
  obtain ⟨items, written⟩ := Except.exists_mapM_eq_ok.mpr entries
  rw [encode, toItem, written]
  exact ⟨_, rfl⟩

theorem Metadatum.exists_encode {m : Metadatum} (h : ∃ item, m.toItem = .ok item) :
    ∃ bytes, m.encode = .ok bytes := by
  obtain ⟨item, written⟩ := h
  rw [encode, written]
  exact ⟨_, rfl⟩

/-- JSON is read exactly if metadata can express it. What is read can be written, alone and under
any labels. -/
theorem Metadatum.read_iff_expressible :
    (∀ j, (∃ m, ofJson j = .ok m) ↔ Expressible j) ∧
    (∀ j m, ofJson j = .ok m → ∃ bytes, m.encode = .ok bytes) ∧
    ∀ a : Metadata, (∀ label m, a.get? label = some m → ∃ j, ofJson j = .ok m) →
      ∃ bytes, a.encode = .ok bytes := by
  refine ⟨fun j => ⟨expressible_of_ofJson, Expressible.exists_ofJson⟩, fun j m read => ?_,
    fun a each => ?_⟩
  · exact exists_encode (exists_toItem_of_ofJson read)
  · refine Metadata.exists_encode fun label m noted => ?_
    obtain ⟨j, read⟩ := each label m noted
    exact exists_toItem_of_ofJson read

namespace Metadatum

def Sample.annals : Json :=
  .obj [(String.ofList (List.replicate 65 '0'),
      .arr [.str (String.ofList ('0' :: 'x' :: List.replicate 128 'F')),
        .neg (-9223372036854775808)]),
    ("0xBEEF", .nat 18446744073709551615), ("", .obj [])]

theorem Sample.annals_read : (ofJson annals).satisfies (fun _ => true) = true := by
  decide +kernel

theorem read_iff_expressible_annals : Expressible Sample.annals ∧
    ∃ m, ofJson Sample.annals = .ok m ∧ (∃ bytes, m.encode = .ok bytes) ∧
      ∃ bytes, Metadata.encode (OrdMap.ofList [(674, m)]) = .ok bytes := by
  obtain ⟨m, read, _⟩ := Except.satisfies_iff.mp Sample.annals_read
  obtain ⟨accepts, writes, labelled⟩ := read_iff_expressible
  refine ⟨(accepts _).mp ⟨m, read⟩, m, read, writes _ m read, labelled _ fun label x noted => ?_⟩
  have entry : (label, x) ∈ [((674 : UInt64), m)] := OrdMap.get?_eq_some_iff.mp noted
  obtain ⟨_, rfl⟩ := Prod.mk.inj (List.mem_singleton.mp entry)
  exact ⟨_, read⟩

end Metadatum

end ConwayTx
