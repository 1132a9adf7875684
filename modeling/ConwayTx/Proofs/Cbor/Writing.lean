import ConwayTx.Proofs.Cbor
import ConwayTx.Proofs.Cbor.Tree
import ConwayTx.Proofs.Text.Utf8
import Mathlib.Algebra.Order.BigOperators.Group.List
import Mathlib.Data.List.Forall2
/-!
What is written is well formed. Every head is the narrowest that holds its argument, every container
announces its members, and a byte string that is marked as an encoded item holds one, in which all
this is so again.
-/

namespace ConwayTx.Cbor

theorem exists_forall₂ {α β : Type} {R : α → β → Prop} {bs : List β}
    (each : ∀ b ∈ bs, ∃ a, R a b) : ∃ as, List.Forall₂ R as bs := by
  induction bs with
  | nil => exact ⟨[], .nil⟩
  | cons b bs ih =>
    obtain ⟨a, first⟩ := each b List.mem_cons_self
    obtain ⟨as, rest⟩ := ih (fun b' mem => each b' (List.mem_cons_of_mem b mem))
    exact ⟨a :: as, .cons first rest⟩

theorem forall_left {α β : Type} {R : α → β → Prop} {P : α → Prop} {as : List α} {bs : List β}
    (all : List.Forall₂ R as bs) (holds : ∀ a b, R a b → P a) : ∀ a ∈ as, P a :=
  ((List.forall₂_and_left _ _).mp (all.imp fun a b h => ⟨holds a b h, h⟩)).1

theorem map_eq_map {α β γ : Type} {R : α → β → Prop} {f : α → γ} {g : β → γ} {as : List α}
    {bs : List β} (all : List.Forall₂ R as bs) (same : ∀ a b, R a b → f a = g b) :
    as.map f = bs.map g := by
  rw [← List.forall₂_eq_eq_eq, List.forall₂_map_left_iff, List.forall₂_map_right_iff]
  exact all.imp same

theorem exists_chunks {ps : List Bytes} (short : ∀ p ∈ ps, p.length < UInt64.size) :
    ∃ cs : List Chunk, cs.flatMap (Chunk.encode 2) = ps.flatMap encodeBytes ∧
      cs.flatMap Chunk.content = ps.flatten := by
  induction ps with
  | nil => exact ⟨[], rfl, rfl⟩
  | cons p ps ih =>
    obtain ⟨cs, encode, content⟩ := ih (fun q mem => short q (List.mem_cons_of_mem p mem))
    refine ⟨Chunk.least p (short p List.mem_cons_self) :: cs, ?_, ?_⟩
    · rw [List.flatMap_cons, List.flatMap_cons, Chunk.encode_least, encode]
    · rw [List.flatMap_cons, List.flatten_cons, content, Chunk.least]

namespace Tree

def tag? : Tree → Option Nat
  | @tag t _ _ => some t
  | _ => none

def number? : Tree → Option Nat
  | @nat n _ => some n
  | _ => none

def keys? (t : Tree) : Option (List (Option Nat)) :=
  t.entries?.map (fun es => es.map (fun e => e.1.number?))

def Keyed (t : Tree) (has : Nat → Bool) : Prop :=
  ∃ keys : List Nat, t.keys? = some (keys.map some) ∧ keys.Pairwise (· < ·) ∧
    ∀ k, k ∈ keys ↔ has k = true

/-- Tag 24 is on byte strings only, and each of these holds one item of which the same is true. -/
inductive Sealed : Tree → Prop
  | plain {t : Tree} (unmarked : t.tag? ≠ some 24) (inside : ∀ c ∈ t.children, Sealed c) : Sealed t
  | embedded {h : Head 24} {c : Chunk} {inner : Tree} (content : c.content = inner.encode)
    (whole : Sealed inner) : Sealed (.tag h (.bytes c))

end Tree

namespace Item

def children : Item → List Item
  | array _ items | stream items => items
  | map _ entries => entries.flatMap (fun e => [e.1, e.2])
  | tag _ item => [item]
  | _ => []

def tag? : Item → Option UInt64
  | tag t _ => some t
  | _ => none

def number? : Item → Option Nat
  | nat n => some n.toNat
  | _ => none

def Counted : Item → Prop
  | array count items => count = items.length
  | map count entries => count = entries.length
  | _ => True

/-- Every container announces its members, and tag 24 is only used to embed items of which the same
is true. -/
inductive Sealed : Item → Prop
  | plain {item : Item} (unmarked : item.tag? ≠ some 24) (counted : item.Counted)
    (inside : ∀ c ∈ item.children, Sealed c) : Sealed item
  | embedded {inner : Item} (whole : Sealed inner) : Sealed (.embedded inner.encode)

theorem sealed_iff {item : Item} (unmarked : item.tag? ≠ some 24) :
    item.Sealed ↔ item.Counted ∧ ∀ c ∈ item.children, c.Sealed := by
  refine ⟨fun whole => ?_, fun ⟨counted, inside⟩ => .plain unmarked counted inside⟩
  cases whole with
  | plain _ counted inside => exact ⟨counted, inside⟩
  | embedded => exact absurd rfl unmarked

theorem sealed_of_leaf {item : Item} (untagged : item.tag? = none) (counted : item.Counted)
    (childless : item.children = []) : item.Sealed :=
  .plain (by simp [untagged]) counted (by simp [childless])

@[simp] theorem sealed_nat (n : UInt64) : (nat n).Sealed := sealed_of_leaf rfl trivial rfl

@[simp] theorem sealed_bytes (b : Bytes) : (bytes b).Sealed :=
  sealed_of_leaf rfl trivial rfl

@[simp] theorem sealed_chunks (pieces : List Bytes) : (chunks pieces).Sealed :=
  sealed_of_leaf rfl trivial rfl

@[simp] theorem sealed_text (t : String) : (text t).Sealed := sealed_of_leaf rfl trivial rfl

@[simp] theorem sealed_bool (b : Bool) : (bool b).Sealed := sealed_of_leaf rfl trivial rfl

@[simp] theorem sealed_null : null.Sealed := sealed_of_leaf rfl trivial rfl

@[simp] theorem sealed_array {count : Nat} {items : List Item} :
    (array count items).Sealed ↔ count = items.length ∧ ∀ item ∈ items, item.Sealed :=
  sealed_iff (by simp [tag?])

@[simp] theorem sealed_stream {items : List Item} :
    (stream items).Sealed ↔ ∀ item ∈ items, item.Sealed :=
  (sealed_iff (by simp [tag?])).trans (iff_of_eq (true_and _))

theorem sealed_map {count : Nat} {entries : List (Item × Item)} :
    (map count entries).Sealed ↔
      count = entries.length ∧ ∀ e ∈ entries, e.1.Sealed ∧ e.2.Sealed := by
  rw [sealed_iff (by simp [tag?])]
  refine and_congr_right fun _ => ?_
  constructor
  · intro all e mem
    exact ⟨all e.1 (List.mem_flatMap.mpr ⟨e, mem, by simp⟩),
      all e.2 (List.mem_flatMap.mpr ⟨e, mem, by simp⟩)⟩
  · intro all c inside
    obtain ⟨e, mem, which⟩ := List.mem_flatMap.mp inside
    obtain rfl | rfl := by simpa using which
    · exact (all e mem).1
    · exact (all e mem).2

@[simp] theorem sealed_map_map {α : Type} {count : Nat} {xs : List α} {key value : α → Item} :
    (map count (xs.map (fun x => (key x, value x)))).Sealed ↔
      count = xs.length ∧ ∀ x ∈ xs, (key x).Sealed ∧ (value x).Sealed := by
  rw [sealed_map, List.length_map, List.forall_mem_map]

theorem sealed_array_cons {count : Nat} {item : Item} {items : List Item} (first : item.Sealed)
    (rest : (array count items).Sealed) : (array (count + 1) (item :: items)).Sealed := by
  obtain ⟨rfl, each⟩ := sealed_array.mp rest
  exact sealed_array.mpr ⟨rfl, List.forall_mem_cons.mpr ⟨first, each⟩⟩

theorem sealed_map_cons {count : Nat} {key value : Item} {entries : List (Item × Item)}
    (first : key.Sealed) (second : value.Sealed) (rest : (map count entries).Sealed) :
    (map (count + 1) ((key, value) :: entries)).Sealed := by
  obtain ⟨rfl, each⟩ := sealed_map.mp rest
  exact sealed_map.mpr ⟨rfl, List.forall_mem_cons.mpr ⟨⟨first, second⟩, each⟩⟩

theorem sealed_tag {u : UInt64} {item : Item} (other : u ≠ 24) :
    (tag u item).Sealed ↔ item.Sealed := by
  rw [sealed_iff (by simpa [tag?] using other)]
  simp [Counted, children]

@[simp] theorem sealed_ofNat (n : Nat) : (ofNat n).Sealed := sealed_nat _

@[simp] theorem sealed_ofInt (n : Int) : (ofInt n).Sealed := by
  cases n with
  | ofNat n => exact sealed_nat _
  | negSucc n => exact sealed_of_leaf rfl trivial rfl

theorem map_ofNat_filter_singleton (k : Nat) (p : Nat → Bool) :
    ([k].filter p).map ofNat = if p k then [ofNat k] else [] := by
  cases present : p k <;> simp [present]

@[simp] theorem sealed_option {α : Type} {f : α → Item} {o : Option α} :
    (option f o).Sealed ↔ ∀ a ∈ o, (f a).Sealed := by
  cases o <;> simp [option]

/-! ### Lengths -/

theorem length_children_lt (item : Item) :
    (item.children.flatMap encode).length < item.encode.length := by
  cases item with
  | array count items =>
    have := length_head_pos 4 count
    simp only [children, encode, encodeAll_eq, List.length_append]
    omega
  | stream items =>
    simp only [children, encode, encodeAll_eq, List.length_append, List.length_cons]
    omega
  | map count entries =>
    have := length_head_pos 5 count
    simp only [children, encode, encodeEntries_eq, List.length_append, List.flatMap_assoc,
      List.flatMap_cons, List.flatMap_nil, List.append_nil]
    omega
  | tag t item =>
    have := length_head_pos 6 t.toNat
    simp only [children, encode, List.length_append, List.flatMap_cons, List.flatMap_nil,
      List.append_nil]
    omega
  | _ => exact length_encode_pos _

theorem length_encode_lt {item c : Item} (mem : c ∈ item.children) :
    c.encode.length < item.encode.length := by
  have part : c.encode.Sublist (item.children.flatMap encode) :=
    List.sublist_flatten_of_mem (List.mem_map_of_mem mem)
  exact part.length_le.trans_lt item.length_children_lt

theorem length_encode_le {item c : Item} (mem : c ∈ item.children) :
    c.encode.length ≤ item.encode.length :=
  Nat.le_of_lt (length_encode_lt mem)

theorem count_children_le (item : Item) : item.children.length ≤ item.encode.length := by
  have each := List.length_le_sum_of_one_le (item.children.map (fun c => c.encode.length))
    (by simpa using fun c _ => c.length_encode_pos)
  rw [List.length_map, ← List.length_flatMap] at each
  exact each.trans (Nat.le_of_lt item.length_children_lt)

theorem count_entries_le (count : Nat) (entries : List (Item × Item)) :
    entries.length ≤ (map count entries).encode.length := by
  have twice : (map count entries).children.length = entries.length * 2 := by
    simp [children, List.length_flatMap]
  have count := (map count entries).count_children_le
  omega

end Item

/-! ### Trees of items -/

structure Written (t : Tree) (item : Item) : Prop where
  encode_eq : t.encode = item.encode
  whole : t.Sealed
  number_eq : t.number? = item.number?

namespace Written

variable {t : Tree} {item : Item}

theorem plain (encode_eq : t.encode = item.encode) (unmarked : t.tag? ≠ some 24)
    (number_eq : t.number? = item.number?) (inside : ∀ c ∈ t.children, c.Sealed) :
    Written t item :=
  ⟨encode_eq, .plain unmarked inside, number_eq⟩

theorem leaf (encode_eq : t.encode = item.encode) (untagged : t.tag? = none)
    (number_eq : t.number? = item.number?) (childless : t.children = []) : Written t item :=
  plain encode_eq (by simp [untagged]) number_eq (by simp [childless])

end Written

section Containers

variable {ts : List Tree} {items : List Item} {es : List (Tree × Tree)}
  {entries : List (Item × Item)}

def WrittenEntry (e : Tree × Tree) (p : Item × Item) : Prop := Written e.1 p.1 ∧ Written e.2 p.2

theorem flatMap_encode_eq (all : List.Forall₂ Written ts items) :
    ts.flatMap Tree.encode = Item.encodeAll items := by
  rw [Item.encodeAll_eq]
  exact congrArg List.flatten (map_eq_map all fun _ _ h => h.encode_eq)

theorem flatMap_encodeEntries_eq (all : List.Forall₂ WrittenEntry es entries) :
    es.flatMap (fun e => e.1.encode ++ e.2.encode) = Item.encodeEntries entries := by
  rw [Item.encodeEntries_eq]
  refine congrArg List.flatten (map_eq_map all fun e p h => ?_)
  rw [h.1.encode_eq, h.2.encode_eq]

theorem exists_array (all : List.Forall₂ Written ts items)
    (fits : items.length < UInt64.size) :
    ∃ t, Written t (.array items.length items) ∧ t.items? = some ts := by
  have count : ts.length = items.length := all.length_eq
  have listed := Members.toList_ofList ts
  refine ⟨.array (.least ts.length (count ▸ fits)) (.ofList ts),
    .plain ?_ (by simp [Tree.tag?]) rfl ?_, congrArg some listed⟩
  · rw [Tree.encode, Tree.encodeAll_eq, listed, Head.encode_least, flatMap_encode_eq all, count,
      Item.encode]
  · rw [Tree.children, listed]
    exact forall_left all (fun _ _ h => h.whole)

theorem exists_stream (all : List.Forall₂ Written ts items) :
    ∃ t, Written t (.stream items) := by
  have listed := Members.toList_ofList ts
  refine ⟨.stream (.ofList ts), .plain ?_ (by simp [Tree.tag?]) rfl ?_⟩
  · rw [Tree.encode, Tree.encodeAll_eq, listed, flatMap_encode_eq all, Item.encode]
  · rw [Tree.children, listed]
    exact forall_left all (fun _ _ h => h.whole)

theorem exists_entries {n : Nat} (each : ∀ c ∈ (Item.map n entries).children, ∃ t, Written t c) :
    ∃ es, List.Forall₂ WrittenEntry es entries := by
  apply exists_forall₂
  intro p mem
  obtain ⟨k, key⟩ := each p.1 (List.mem_flatMap.mpr ⟨p, mem, by simp⟩)
  obtain ⟨v, value⟩ := each p.2 (List.mem_flatMap.mpr ⟨p, mem, by simp⟩)
  exact ⟨(k, v), key, value⟩

theorem exists_map (all : List.Forall₂ WrittenEntry es entries)
    (fits : entries.length < UInt64.size) :
    ∃ t, Written t (.map entries.length entries) ∧ t.entries? = some es := by
  have count : es.length = entries.length := all.length_eq
  have listed := Members.toList_ofList es
  have found : (Tree.map (.least es.length (count ▸ fits)) (.ofList es)).entries? = some es :=
    congrArg some listed
  refine ⟨_, .plain ?_ (by simp [Tree.tag?]) rfl ?_, found⟩
  · rw [Tree.encode, Tree.encodeEntries_eq, listed, Head.encode_least,
      flatMap_encodeEntries_eq all, count, Item.encode]
  · rw [Tree.forall_children_of_entries? found]
    exact forall_left all (fun _ _ h => ⟨h.1.whole, h.2.whole⟩)

end Containers

section Leaves

def constant (n : Nat) (small : n < 24) : Tree := .simple ⟨.inline, small⟩ (by simp)

theorem exists_bool (b : Bool) : ∃ t, Written t (.bool b) := by
  cases b with
  | false => exact ⟨constant 20 (by decide), .leaf rfl rfl rfl rfl⟩
  | true => exact ⟨constant 21 (by decide), .leaf rfl rfl rfl rfl⟩

theorem exists_bytes {b : Bytes} (fits : b.length < UInt64.size) : ∃ t, Written t (.bytes b) := by
  refine ⟨.bytes (.least b fits), .leaf ?_ rfl rfl rfl⟩
  rw [Tree.encode, Chunk.encode_least, Item.encode]

theorem exists_pieces {pieces : List Bytes}
    (fits : (Item.chunks pieces).encode.length < UInt64.size) :
    ∃ t, Written t (.chunks pieces) := by
  have short : ∀ p ∈ pieces, p.length < UInt64.size := by
    intro p mem
    have part : (encodeBytes p).Sublist (pieces.flatMap encodeBytes) :=
      List.sublist_flatten_of_mem (List.mem_map_of_mem mem)
    have length := part.length_le
    rw [Item.encode, List.length_cons, List.length_append] at fits
    rw [encodeBytes, List.length_append] at length
    omega
  obtain ⟨cs, written, _⟩ := exists_chunks short
  refine ⟨.chunks cs, .leaf ?_ rfl rfl rfl⟩
  rw [Tree.encode, encodePieces, written, Item.encode]

theorem exists_text {t : String} (fits : (Item.text t).encode.length < UInt64.size) :
    ∃ tree, Written tree (.text t) := by
  have length : t.toUTF8.toList.length = t.utf8ByteSize := ByteArray.length_toList _
  rw [Item.encode, List.length_append] at fits
  have fits : t.toUTF8.toList.length < UInt64.size := by omega
  refine ⟨.text (.least _ fits), .leaf ?_ rfl rfl rfl⟩
  rw [Tree.encode, Chunk.encode, Chunk.least, Head.encode_least, Item.encode, ← length]

variable {t : Tree} {item : Item} (h : Written t item)
include h

theorem exists_tag {u : UInt64} (other : u ≠ 24) : ∃ t, Written t (.tag u item) := by
  refine ⟨.tag (.least u.toNat u.toNat_lt_size) t, .plain ?_ ?_ rfl ?_⟩
  · rw [Tree.encode, Head.encode_least, h.encode_eq, Item.encode]
  · rw [Tree.tag?, ne_eq, Option.some.injEq]
    exact fun same => other (UInt64.toNat_inj.mp same)
  · simpa [Tree.children] using h.whole

theorem exists_embedded (fits : item.encode.length < UInt64.size) :
    ∃ t, Written t (.embedded item.encode) := by
  refine ⟨.tag (.least 24 (by decide)) (.bytes (.least item.encode fits)),
    ?_, .embedded h.encode_eq.symm h.whole, rfl⟩
  rw [Tree.encode, Tree.encode, Head.encode_least, Chunk.encode_least, Item.embedded, Item.encode,
    Item.encode]
  rfl

end Leaves

namespace Item

theorem Sealed.exists_tree {item : Item} (h : item.Sealed)
    (fits : item.encode.length < UInt64.size) : ∃ t, Written t item := by
  induction h with
  | @embedded inner _ ih =>
    have shorter : inner.encode.length ≤ (Item.embedded inner.encode).encode.length := by
      simp only [Item.embedded, encode, encodeBytes, List.length_append]
      omega
    have fits := Nat.lt_of_le_of_lt shorter fits
    obtain ⟨t, written⟩ := ih fits
    exact exists_embedded written fits
  | @plain item unmarked counted _ ih =>
    have each : ∀ c ∈ item.children, ∃ t, Written t c := fun c mem =>
      ih c mem (Nat.lt_of_le_of_lt (length_encode_le mem) fits)
    have count := Nat.lt_of_le_of_lt item.count_children_le fits
    cases item with
    | nat n => exact ⟨.nat (.least _ n.toNat_lt_size), .leaf (Head.encode_least ..) rfl rfl rfl⟩
    | neg n => exact ⟨.neg (.least _ n.toNat_lt_size), .leaf (Head.encode_least ..) rfl rfl rfl⟩
    | bool b => exact exists_bool b
    | null => exact ⟨constant 22 (by decide), .leaf rfl rfl rfl rfl⟩
    | bytes b =>
      rw [encode, encodeBytes, List.length_append] at fits
      exact exists_bytes (by omega)
    | chunks pieces => exact exists_pieces fits
    | text t => exact exists_text fits
    | array n items =>
      obtain rfl := counted
      obtain ⟨ts, all⟩ := exists_forall₂ each
      obtain ⟨t, written, _⟩ := exists_array all count
      exact ⟨t, written⟩
    | stream items =>
      obtain ⟨ts, all⟩ := exists_forall₂ each
      exact exists_stream all
    | map n entries =>
      obtain rfl := counted
      obtain ⟨es, all⟩ := exists_entries each
      obtain ⟨t, written, _⟩ := exists_map all (Nat.lt_of_le_of_lt (count_entries_le _ _) fits)
      exact ⟨t, written⟩
    | tag u inner =>
      obtain ⟨t, written⟩ := each inner (by simp [children])
      exact exists_tag written (by simpa [tag?] using unmarked)

theorem Sealed.exists_map {count : Nat} {entries : List (Item × Item)}
    (h : (map count entries).Sealed) (fits : (map count entries).encode.length < UInt64.size) :
    ∃ t es, Written t (map count entries) ∧ t.entries? = some es ∧
      List.Forall₂ WrittenEntry es entries := by
  obtain ⟨counted, inside⟩ := (sealed_iff (by simp [tag?])).mp h
  obtain rfl := counted
  obtain ⟨es, all⟩ := exists_entries fun c mem =>
    (inside c mem).exists_tree (Nat.lt_of_le_of_lt (length_encode_le mem) fits)
  obtain ⟨t, written, found⟩ :=
    Cbor.exists_map all (Nat.lt_of_le_of_lt (count_entries_le _ entries) fits)
  exact ⟨t, es, written, found, all⟩

end Item

/-! ### Maps by number -/

theorem keys?_eq {t : Tree} {es : List (Tree × Tree)} {entries : List (Item × Item)}
    (found : t.entries? = some es) (all : List.Forall₂ WrittenEntry es entries) :
    t.keys? = some ((entries.map Prod.fst).map Item.number?) := by
  rw [Tree.keys?, found, Option.map_some, List.map_map]
  exact congrArg some (map_eq_map all fun _ _ h => h.1.number_eq)

section Keyed

variable {entries : List (Item × Item)} {fields : List Nat} {has : Nat → Bool}
  (keys : entries.map Prod.fst = (fields.filter has).map Item.ofNat)
include keys

theorem count_eq_length : (fields.map has).count true = entries.length := by
  have there := congrArg List.length keys
  rw [List.length_map, List.length_map, ← List.countP_eq_length_filter] at there
  rw [there, List.count_eq_countP, List.countP_map]
  exact List.countP_congr fun k _ => by simp

theorem exists_keyed {count : Nat} (h : (Item.map count entries).Sealed)
    (fits : (Item.map count entries).encode.length < UInt64.size)
    (ascending : fields.Pairwise (· < ·)) (small : ∀ k ∈ fields, k < UInt64.size)
    (within : ∀ k, has k = true → k ∈ fields) :
    ∃ t, Written t (.map count entries) ∧ t.Keyed has := by
  obtain ⟨t, es, written, found, all⟩ := h.exists_map fits
  refine ⟨t, written, fields.filter has, ?_, ascending.filter _, fun k => ?_⟩
  · rw [keys?_eq found all, keys, List.map_map]
    refine congrArg some (List.map_congr_left fun k mem => ?_)
    have fits := small k (List.mem_of_mem_filter mem)
    exact congrArg some (UInt64.toNat_ofNat_of_lt' fits)
  · rw [List.mem_filter]
    exact ⟨fun ⟨_, present⟩ => present, fun present => ⟨within k present, present⟩⟩

end Keyed

end ConwayTx.Cbor
