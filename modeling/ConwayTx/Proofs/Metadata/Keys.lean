import ConwayTx.Proofs.Cbor.Delimiting
import ConwayTx.Proofs.Metadata.NoSchema
/-!
Keys of metadata that are read from JSON. Every map comes from an object, and two of its keys are
equal if and only if the names are spellings of one integer or of the same bytes. So an object whose
names are all different may become a map, and be written as one, that has a key twice.
-/

namespace List

variable {α β : Type} {R : α → β → Prop} {as : List α} {bs : List β}

theorem forall_mem_iff_of_forall₂ {p : α → Prop} {q : β → Prop} (all : List.Forall₂ R as bs)
    (same : ∀ a b, R a b → (p a ↔ q b)) : (∀ a ∈ as, p a) ↔ ∀ b ∈ bs, q b := by
  induction all with
  | nil => simp
  | cons first _ ih => rw [List.forall_mem_cons, List.forall_mem_cons, ih, same _ _ first]

theorem pairwise_iff_of_forall₂ {P : α → α → Prop} {Q : β → β → Prop}
    (all : List.Forall₂ R as bs)
    (same : ∀ a b a' b', R a b → R a' b' → (P a a' ↔ Q b b')) :
    as.Pairwise P ↔ bs.Pairwise Q := by
  induction all with
  | nil => simp
  | cons first rest ih =>
    have heads := forall_mem_iff_of_forall₂ rest fun a b => same _ _ a b first
    rw [List.pairwise_cons, List.pairwise_cons, ih, heads]

end List

namespace ConwayTx

namespace Cbor.Item

inductive Headed : Item → Fin 8 → Nat → Bytes → Prop
  | nat (n : UInt64) : Headed (nat n) 0 n.toNat []
  | neg (n : UInt64) : Headed (neg n) 1 n.toNat []
  | bytes (b : Bytes) : Headed (bytes b) 2 b.length b
  | text (t : String) : Headed (text t) 3 t.utf8ByteSize t.toUTF8.toList

variable {i i' : Item} {m m' : Fin 8} {n n' : Nat} {r r' : Bytes}

theorem Headed.encode_eq (h : Headed i m n r) : i.encode = head m n ++ r := by
  cases h with
  | nat | neg => exact (List.append_nil _).symm
  | bytes | text => rfl

theorem Headed.item_eq (h : Headed i m n r) (h' : Headed i' m' n' r') (type : m = m')
    (argument : n = n') (rest : r = r') : i = i' := by
  cases h <;> cases h' <;>
    simp_all [-String.toUTF8_eq_toByteArray, String.toUTF8_toList_inj, UInt64.toNat_inj]

theorem Headed.encode_eq_iff (h : Headed i m n r) (h' : Headed i' m' n' r')
    (fits : n < UInt64.size) (fits' : n' < UInt64.size) : i.encode = i'.encode ↔ i = i' := by
  refine ⟨fun same => ?_, congrArg encode⟩
  rw [h.encode_eq, h'.encode_eq] at same
  obtain ⟨type, argument, rest⟩ := head_append_inj m m' fits fits' same
  exact h.item_eq h' type argument rest

end Cbor.Item

open Cbor (Item)

namespace Metadatum

inductive KeyOf (name : String) : Metadatum → Prop
  | int {n : Int64} (h : SpellsInt name n) : KeyOf name (int (Int128.ofInt64 n))
  | bytes {bs : Bytes} (h : SpellsBytes name bs) (short : bs.length ≤ maxLength) :
    KeyOf name (bytes bs)
  | text (short : name.utf8ByteSize ≤ maxLength) : KeyOf name (text name)

/-- The names become one key: equal names, and two spellings of one integer or of the same bytes.
-/
inductive SameKey : String → String → Prop
  | refl (name : String) : SameKey name name
  | int {a b : String} {n : Int64} (ha : SpellsInt a n) (hb : SpellsInt b n) : SameKey a b
  | bytes {a b : String} {bs : Bytes} (ha : SpellsBytes a bs) (hb : SpellsBytes b bs) : SameKey a b

variable {a b name : String} {key key' : Metadatum}

theorem keyOf_of_ofName (h : ofName name = .ok key) : KeyOf name key := by
  by_cases int : ∃ n, SpellsInt name n
  · obtain ⟨n, spells⟩ := int
    rw [ofName_of_spellsInt spells] at h
    cases h
    exact .int spells
  · rw [ofName_of_not_spellsInt (not_exists.mp int)] at h
    rcases ofString_cases h with ⟨bs, spells, short, rfl⟩ | ⟨short, rfl⟩
    · exact .bytes spells short
    · exact .text short

theorem KeyOf.sameKey (ha : KeyOf a key) (hb : KeyOf b key) : SameKey a b := by
  cases ha with
  | @int n spells =>
    generalize same : Metadatum.int _ = key at hb
    cases hb with
    | @int n' spells' =>
      have words : n.toInt = n'.toInt := congrArg Int128.toInt (Metadatum.int.inj same)
      exact .int spells (by rwa [SpellsInt, words])
    | bytes | text => cases same
  | bytes spells =>
    cases hb with
    | bytes spells' => exact .bytes spells spells'
  | text =>
    cases hb with
    | text => exact .refl a

theorem SameKey.ofName_eq (h : SameKey a b) : ofName a = ofName b := by
  cases h with
  | refl => rfl
  | int ha hb => rw [ofName_of_spellsInt ha, ofName_of_spellsInt hb]
  | bytes ha hb =>
    rw [ofName_of_not_spellsInt fun _ => not_spellsInt_of_spellsBytes ha,
      ofName_of_not_spellsInt fun _ => not_spellsInt_of_spellsBytes hb,
      ofString_of_spellsBytes ha, ofString_of_spellsBytes hb]

theorem key_eq_iff (ha : ofName a = .ok key) (hb : ofName b = .ok key') :
    key = key' ↔ SameKey a b := by
  constructor
  · rintro rfl
    exact (keyOf_of_ofName ha).sameKey (keyOf_of_ofName hb)
  · intro same
    rw [same.ofName_eq, hb] at ha
    exact Except.ok.inj ha.symm

def ofKeyItem? : Item → Option Metadatum
  | .nat n => (Int128.ofInt? n.toNat).map int
  | .neg n => (Int128.ofInt? (-1 - n.toNat)).map int
  | .bytes b => some (bytes b)
  | .text t => some (text t)
  | _ => none

theorem exists_headed_ofInt (z : Int) : ∃ m n r, (Item.ofInt z).Headed m n r ∧
    n < UInt64.size := by
  cases z with
  | ofNat k => exact ⟨_, _, _, .nat _, UInt64.toNat_lt_size _⟩
  | negSucc k => exact ⟨_, _, _, .neg _, UInt64.toNat_lt_size _⟩

theorem ofKeyItem?_ofInt {n : Int128} (plain : n.isPlain = true) :
    ofKeyItem? (Item.ofInt n.toInt) = some (int n) := by
  obtain ⟨low, high⟩ := isPlain_iff.mp plain
  have back : ∀ z, z = n.toInt → (Int128.ofInt? z).map int = some (int n) := by
    rintro z rfl
    rw [Int128.ofInt?_eq_some_iff.mpr rfl, Option.map_some]
  cases sign : n.toInt with
  | ofNat k =>
    have word : (UInt64.ofNat k).toNat = k := UInt64.toNat_ofNat_of_lt (by grind)
    refine back _ ?_
    rw [word, sign]
    rfl
  | negSucc k =>
    have word : (UInt64.ofNat k).toNat = k := UInt64.toNat_ofNat_of_lt (by omega)
    refine back _ ?_
    rw [word, sign]
    omega

theorem KeyOf.exists_item (h : KeyOf name key) : ∃ item m n r, key.toItem = .ok item ∧
    ofKeyItem? item = some key ∧ item.Headed m n r ∧ n < UInt64.size := by
  have word : maxLength < UInt64.size := by decide
  cases h with
  | @int n h =>
    have plain := isPlain_ofInt64 n
    obtain ⟨m, k, r, headed, fits⟩ := exists_headed_ofInt (Int128.ofInt64 n).toInt
    exact ⟨_, m, k, r, by rw [toItem, if_pos plain], ofKeyItem?_ofInt plain, headed, fits⟩
  | bytes h short => exact ⟨_, _, _, _, rfl, rfl, .bytes _, Nat.lt_of_le_of_lt short word⟩
  | text short => exact ⟨_, _, _, _, rfl, rfl, .text _, Nat.lt_of_le_of_lt short word⟩

theorem encode_eq_iff_key_eq {item item' : Item} (ha : KeyOf a key) (hb : KeyOf b key')
    (h : key.toItem = .ok item) (h' : key'.toItem = .ok item') :
    item.encode = item'.encode ↔ key = key' := by
  obtain ⟨_, m, n, r, written, back, headed, fits⟩ := ha.exists_item
  obtain ⟨_, m', n', r', written', back', headed', fits'⟩ := hb.exists_item
  obtain rfl := Except.ok.inj (written.symm.trans h)
  obtain rfl := Except.ok.inj (written'.symm.trans h')
  rw [headed.encode_eq_iff headed' fits fits']
  constructor
  · rintro rfl
    exact Option.some.inj (back.symm.trans back')
  · rintro rfl
    exact Except.ok.inj (written.symm.trans written')

def children : Metadatum → List Metadatum
  | array items => items
  | map ps => ps.flatMap (fun p => [p.1, p.2])
  | _ => []

def Within : Metadatum → Metadatum → Prop := Relation.ReflTransGen (fun c m => c ∈ m.children)

structure Renders (members : List (String × Json)) (ps : List (Metadatum × Metadatum)) : Prop where
  read : ofJson (.obj members) = .ok (map ps)
  keys : (ps.map Prod.fst).Nodup ↔ members.Pairwise (fun m m' => ¬ SameKey m.1 m'.1)
  written : ∃ es, (map ps).toItem = .ok (.map ps.length es) ∧
    ((es.map (fun e => e.1.encode)).Nodup ↔ (ps.map Prod.fst).Nodup)

theorem renders_of_read {members : List (String × Json)} {ps : List (Metadatum × Metadatum)}
    (h : ofJson (.obj members) = .ok (map ps)) : Renders members ps := by
  obtain ⟨_, readAll, same⟩ := ofJson_obj_eq_ok_iff.mp h
  rw [Metadatum.map.inj same] at readAll
  have names : List.Forall₂ (fun m p => ofName m.1 = .ok p.1) members ps :=
    (Except.forall₂_of_mapM_eq_ok readAll).imp fun _ _ read => (ofMember_eq_ok_iff.mp read).1
  have keyed : ∀ p ∈ ps, ∃ name, KeyOf name p.1 := by
    intro p mem
    obtain ⟨m, _, read⟩ := Except.exists_of_mem_mapM readAll mem
    exact ⟨m.1, keyOf_of_ofName (ofMember_eq_ok_iff.mp read).1⟩
  refine ⟨h, ?keys, ?written⟩
  case keys =>
    rw [List.Nodup, List.pairwise_map]
    refine (List.pairwise_iff_of_forall₂ names ?_).symm
    exact fun _ _ _ _ ha hb => not_congr (key_eq_iff ha hb).symm
  case written =>
    obtain ⟨item, whole⟩ := exists_toItem_of_ofJson h
    rw [toItem, entriesOf_eq] at whole
    obtain ⟨es, writtenAll, same⟩ := Except.map_eq_ok.mp whole
    have items : List.Forall₂ (fun p e => (∃ name, KeyOf name p.1) ∧ p.1.toItem = .ok e.1) ps es :=
      (List.forall₂_and_left _ _).mpr ⟨keyed, (Except.forall₂_of_mapM_eq_ok writtenAll).imp
        fun _ _ entry => (toEntry_eq_ok_iff.mp entry).1⟩
    refine ⟨es, by rw [toItem, entriesOf_eq, writtenAll]; rfl, ?_⟩
    rw [List.Nodup, List.Nodup, List.pairwise_map, List.pairwise_map]
    refine (List.pairwise_iff_of_forall₂ items ?_).symm
    rintro p e p' e' ⟨⟨_, ha⟩, h⟩ ⟨⟨_, hb⟩, h'⟩
    exact not_congr (encode_eq_iff_key_eq ha hb h h').symm

theorem exists_child_read {j c : Json} {m : Metadatum} (h : ofJson j = .ok m)
    (mem : c ∈ j.children) : ∃ d ∈ m.children, ofJson c = .ok d := by
  cases j with
  | arr items =>
    obtain ⟨ms, read, rfl⟩ := ofJson_arr_eq_ok_iff.mp h
    exact Except.exists_mem_mapM read mem
  | obj members =>
    obtain ⟨ps, read, rfl⟩ := ofJson_obj_eq_ok_iff.mp h
    obtain ⟨member, there, rfl⟩ := List.mem_map.mp mem
    obtain ⟨p, entry, found⟩ := Except.exists_mem_mapM read there
    exact ⟨p.2, List.mem_flatMap.mpr ⟨p, entry, by simp⟩, (ofMember_eq_ok_iff.mp found).2⟩
  | _ => cases mem

theorem exists_child_source {j : Json} {m d : Metadatum} (h : ofJson j = .ok m)
    (mem : d ∈ m.children) :
    (∃ c ∈ j.children, ofJson c = .ok d) ∨ ∃ name, KeyOf name d := by
  cases j with
  | arr items =>
    obtain ⟨ms, read, rfl⟩ := ofJson_arr_eq_ok_iff.mp h
    exact .inl (Except.exists_of_mem_mapM read mem)
  | obj members =>
    obtain ⟨ps, read, rfl⟩ := ofJson_obj_eq_ok_iff.mp h
    obtain ⟨p, entry, part⟩ := List.mem_flatMap.mp mem
    obtain ⟨member, there, found⟩ := Except.exists_of_mem_mapM read entry
    obtain ⟨name, value⟩ := ofMember_eq_ok_iff.mp found
    simp only [List.mem_cons, List.not_mem_nil, or_false] at part
    rcases part with rfl | rfl
    · exact .inr ⟨member.1, keyOf_of_ofName name⟩
    · exact .inl ⟨member.2, List.mem_map_of_mem there, value⟩
  | str s =>
    rcases ofString_cases h with ⟨_, _, _, rfl⟩ | ⟨_, rfl⟩ <;> cases mem
  | _ => cases h <;> cases mem

theorem exists_map_of_obj {j : Json} {members : List (String × Json)}
    (part : (Json.obj members).Within j) {m : Metadatum} (h : ofJson j = .ok m) :
    ∃ ps, (map ps).Within m ∧ Renders members ps := by
  induction part generalizing m with
  | refl =>
    obtain ⟨ps, _, rfl⟩ := ofJson_obj_eq_ok_iff.mp h
    exact ⟨ps, .refl, renders_of_read h⟩
  | tail _ mem ih =>
    obtain ⟨d, child, read⟩ := exists_child_read h mem
    obtain ⟨ps, deeper, renders⟩ := ih read
    exact ⟨ps, deeper.tail child, renders⟩

theorem KeyOf.not_map_within {ps : List (Metadatum × Metadatum)} (h : KeyOf name key) :
    ¬ (map ps).Within key := by
  intro part
  cases part with
  | refl => cases h
  | tail _ mem => cases h <;> cases mem

theorem exists_obj_of_map {m : Metadatum} {ps : List (Metadatum × Metadatum)}
    (part : (map ps).Within m) {j : Json} (h : ofJson j = .ok m) :
    ∃ members, (Json.obj members).Within j ∧ Renders members ps := by
  induction part generalizing j with
  | refl =>
    cases j with
    | obj members => exact ⟨members, .refl, renders_of_read h⟩
    | arr items =>
      obtain ⟨_, _, same⟩ := ofJson_arr_eq_ok_iff.mp h
      cases same
    | str s => rcases ofString_cases h with ⟨_, _, _, same⟩ | ⟨_, same⟩ <;> cases same
    | _ => cases h
  | tail deeper mem ih =>
    rcases exists_child_source h mem with ⟨c, child, read⟩ | ⟨name, named⟩
    · obtain ⟨members, within, renders⟩ := ih read
      exact ⟨members, within.tail child, renders⟩
    · exact absurd deeper named.not_map_within

/-- Each map comes from an object and each object becomes a map, whose keys are distinct, as read
and as written, if and only if no two names of the object become one key. -/
theorem keys_distinct_iff {j : Json} {m : Metadatum} (h : ofJson j = .ok m) :
    ((∀ ps, (map ps).Within m → (ps.map Prod.fst).Nodup) ↔
      ∀ members, (Json.obj members).Within j →
        members.Pairwise (fun a b => ¬ SameKey a.1 b.1)) ∧
    (∀ ps, (map ps).Within m → ∃ members, (Json.obj members).Within j ∧ Renders members ps) ∧
    ∀ members, (Json.obj members).Within j → ∃ ps, (map ps).Within m ∧ Renders members ps := by
  refine ⟨?_, fun ps part => exists_obj_of_map part h,
    fun members part => exists_map_of_obj part h⟩
  constructor
  · intro distinct members part
    obtain ⟨ps, there, renders⟩ := exists_map_of_obj part h
    exact renders.keys.mp (distinct ps there)
  · intro apart ps part
    obtain ⟨members, there, renders⟩ := exists_obj_of_map part h
    exact renders.keys.mpr (apart members there)

def Sample.pair (a b : String) : Json := .obj [(a, .nat 0), (b, .nat 0)]

theorem Sample.pair_read :
    (ofJson (pair "0xAB" "0xab")).satisfies (fun _ => true) = true := by
  decide +kernel

theorem keys_distinct_iff_cased : ∃ m, ofJson (Sample.pair "0xAB" "0xab") = .ok m ∧
    ¬ ∀ ps, (map ps).Within m → (ps.map Prod.fst).Nodup := by
  obtain ⟨m, read, _⟩ := Except.satisfies_iff.mp Sample.pair_read
  refine ⟨m, read, fun distinct => ?_⟩
  have apart := (keys_distinct_iff read).1.mp distinct _ .refl
  have upper : SpellsBytes "0xAB" [0xab] := ⟨['A', 'B'], rfl, rfl⟩
  have lower : SpellsBytes "0xab" [0xab] := ⟨['a', 'b'], rfl, rfl⟩
  exact (List.pairwise_cons.mp apart).1 _ List.mem_cons_self (.bytes upper lower)

theorem distinct_names_one_key :
    (∀ members, (Json.obj members).Within (Sample.pair "+1" "1") →
      (members.map Prod.fst).Nodup) ∧
    ∃ ps, ofJson (Sample.pair "+1" "1") = .ok (map ps) ∧ ¬ (ps.map Prod.fst).Nodup := by
  constructor
  · intro members part
    rcases part.cases_tail with same | ⟨c, inside, mem⟩
    · cases same
      decide
    · obtain rfl : c = .nat 0 := by simpa [Sample.pair, Json.children] using mem
      rcases inside.cases_tail with same | ⟨_, _, mem⟩
      · cases same
      · cases mem
  · exact ⟨[(int (.ofInt64 1), int (.ofUInt64 0)), (int (.ofInt64 1), int (.ofUInt64 0))], rfl,
      fun distinct => (List.nodup_cons.mp distinct).1 List.mem_cons_self⟩

end Metadatum

end ConwayTx
