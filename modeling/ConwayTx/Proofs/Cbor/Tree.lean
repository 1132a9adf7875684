import ConwayTx.Cbor.Item
/-!
Well-formed data items in every spelling: arguments of any width, strings in pieces, and containers
of announced or open length. A container whose head announces another number than it
has members cannot be built.
-/

namespace ConwayTx.Cbor

inductive Width
  | inline | one | two | four | eight
  deriving DecidableEq

namespace Width

def bytes : Width → Nat
  | inline => 0
  | one => 1
  | two => 2
  | four => 4
  | eight => 8

def limit : Width → Nat
  | inline => 24
  | w => Bytes.size w.bytes

def info : Width → Nat → Nat
  | inline, n => n
  | one, _ => 24
  | two, _ => 25
  | four, _ => 26
  | eight, _ => 27

theorem limit_le (w : Width) : w.limit ≤ UInt64.size := by
  cases w <;> decide

end Width

structure Head (n : Nat) where
  width : Width
  fits : n < width.limit

namespace Head

variable {n : Nat}

def encode (major : Nat) (h : Head n) : Bytes :=
  initialByte major (h.width.info n) :: Bytes.ofNat h.width.bytes n

theorem lt_size (h : Head n) : n < UInt64.size :=
  Nat.lt_of_lt_of_le h.fits h.width.limit_le

theorem info_lt (h : Head n) : h.width.info n < 28 := by
  obtain ⟨width, fits⟩ := h
  cases width with
  | inline => exact Nat.lt_trans fits (by decide)
  | one | two | four | eight => simp [Width.info]

theorem length_encode_pos (h : Head n) (major : Nat) : 0 < (h.encode major).length :=
  Nat.succ_pos _

def least (n : Nat) (fits : n < UInt64.size) : Head n :=
  if h : n < 24 then ⟨.inline, h⟩
  else if h : n < UInt8.size then ⟨.one, h⟩
  else if h : n < UInt16.size then ⟨.two, h⟩
  else if h : n < UInt32.size then ⟨.four, h⟩
  else ⟨.eight, fits⟩

theorem encode_least (major n : Nat) (fits : n < UInt64.size) :
    (least n fits).encode major = head major n := by
  unfold least head encode
  repeat' split
  all_goals rfl

end Head

structure Chunk where
  content : Bytes
  head : Head content.length

namespace Chunk

def encode (major : Nat) (c : Chunk) : Bytes := c.head.encode major ++ c.content

theorem length_encode_pos (c : Chunk) (major : Nat) : 0 < (c.encode major).length :=
  Nat.succ_pos _

def least (content : Bytes) (fits : content.length < UInt64.size) : Chunk :=
  ⟨content, Head.least _ fits⟩

theorem encode_least (content : Bytes) (fits : content.length < UInt64.size) :
    (least content fits).encode 2 = encodeBytes content := by
  rw [encode, encodeBytes, least, Head.encode_least]

end Chunk

def encodePieces (major : Nat) (pieces : List Chunk) : Bytes :=
  initialByte major 31 :: (pieces.flatMap (Chunk.encode major) ++ [breakByte])

inductive Members (α : Type) : Nat → Type
  | nil : Members α 0
  | cons {n : Nat} (first : α) (rest : Members α n) : Members α (n + 1)

namespace Members

variable {α : Type}

def toList {n : Nat} : Members α n → List α
  | nil => []
  | cons first rest => first :: rest.toList

def ofList : (as : List α) → Members α as.length
  | [] => nil
  | a :: rest => cons a (ofList rest)

@[simp] theorem toList_ofList (as : List α) : (ofList as).toList = as := by
  induction as with
  | nil => rfl
  | cons a rest ih => rw [ofList, toList, ih]

@[simp] theorem length_toList {n : Nat} (ms : Members α n) : ms.toList.length = n := by
  induction ms with
  | nil => rfl
  | cons first rest ih => rw [toList, List.length_cons, ih]

end Members

inductive Tree : Type
  | nat {n : Nat} (h : Head n)
  | neg {n : Nat} (h : Head n)
  | bytes (c : Chunk)
  | chunks (pieces : List Chunk)
  | text (c : Chunk)
  | texts (pieces : List Chunk)
  | array {n : Nat} (h : Head n) (items : Members Tree n)
  | stream {n : Nat} (items : Members Tree n)
  | map {n : Nat} (h : Head n) (entries : Members (Tree × Tree) n)
  | openMap {n : Nat} (entries : Members (Tree × Tree) n)
  | tag {t : Nat} (h : Head t) (item : Tree)
  | simple {n : Nat} (h : Head n) (assigned : h.width = .one → 32 ≤ n)

namespace Tree

mutual

def encode : Tree → Bytes
  | nat h => h.encode 0
  | neg h => h.encode 1
  | bytes c => c.encode 2
  | chunks pieces => encodePieces 2 pieces
  | text c => c.encode 3
  | texts pieces => encodePieces 3 pieces
  | array h items => h.encode 4 ++ encodeAll items
  | stream items => initialByte 4 31 :: (encodeAll items ++ [breakByte])
  | map h entries => h.encode 5 ++ encodeEntries entries
  | openMap entries => initialByte 5 31 :: (encodeEntries entries ++ [breakByte])
  | tag h item => h.encode 6 ++ encode item
  | simple h _ => h.encode 7

def encodeAll {n : Nat} : Members Tree n → Bytes
  | .nil => []
  | .cons item rest => encode item ++ encodeAll rest

def encodeEntries {n : Nat} : Members (Tree × Tree) n → Bytes
  | .nil => []
  | .cons (key, value) rest => encode key ++ encode value ++ encodeEntries rest

end

theorem encodeAll_eq {n : Nat} (items : Members Tree n) :
    encodeAll items = items.toList.flatMap encode := by
  induction items with
  | nil => rfl
  | cons item rest ih => rw [encodeAll, Members.toList, List.flatMap_cons, ih]

theorem encodeEntries_eq {n : Nat} (entries : Members (Tree × Tree) n) :
    encodeEntries entries = entries.toList.flatMap (fun e => encode e.1 ++ encode e.2) := by
  induction entries with
  | nil => rfl
  | cons entry rest ih => rw [encodeEntries, Members.toList, List.flatMap_cons, ih]

def children : Tree → List Tree
  | array _ items | stream items => items.toList
  | map _ entries | openMap entries => entries.toList.flatMap (fun e => [e.1, e.2])
  | tag _ item => [item]
  | _ => []

inductive Everywhere (P : Tree → Prop) : Tree → Prop
  | mk {t : Tree} (here : P t) (inside : ∀ c ∈ t.children, Everywhere P c) : Everywhere P t

theorem everywhere_iff {P : Tree → Prop} {t : Tree} :
    t.Everywhere P ↔ P t ∧ ∀ c ∈ t.children, c.Everywhere P :=
  ⟨fun ⟨here, inside⟩ => ⟨here, inside⟩, fun ⟨here, inside⟩ => ⟨here, inside⟩⟩

theorem Everywhere.leaf {P : Tree → Prop} {t : Tree} (here : P t) (childless : t.children = []) :
    t.Everywhere P :=
  .mk here (by simp [childless])

def content? : Tree → Option Bytes
  | bytes c => some c.content
  | chunks pieces => some (pieces.flatMap Chunk.content)
  | _ => none

def items? : Tree → Option (List Tree)
  | array _ items | stream items => some items.toList
  | _ => none

def entries? : Tree → Option (List (Tree × Tree))
  | map _ entries | openMap entries => some entries.toList
  | _ => none

def major : Tree → Nat
  | nat _ => 0
  | neg _ => 1
  | bytes _ | chunks _ => 2
  | text _ | texts _ => 3
  | array _ _ | stream _ => 4
  | map _ _ | openMap _ => 5
  | tag _ _ => 6
  | simple _ _ => 7

theorem major_of_content? {t : Tree} {b : Bytes} (content : t.content? = some b) : t.major = 2 := by
  cases t with
  | bytes | chunks => rfl
  | _ => cases content

theorem major_of_items? {t : Tree} {ts : List Tree} (items : t.items? = some ts) :
    t.major = 4 := by
  cases t with
  | array | stream => rfl
  | _ => cases items

theorem major_of_entries? {t : Tree} {es : List (Tree × Tree)} (entries : t.entries? = some es) :
    t.major = 5 := by
  cases t with
  | map | openMap => rfl
  | _ => cases entries

theorem children_of_content? {t : Tree} {b : Bytes} (content : t.content? = some b) :
    t.children = [] := by
  cases t with
  | bytes | chunks => rfl
  | _ => cases content

theorem children_of_items? {t : Tree} {ts : List Tree} (items : t.items? = some ts) :
    t.children = ts := by
  cases t with
  | array | stream => exact Option.some.inj items
  | _ => cases items

theorem children_of_entries? {t : Tree} {es : List (Tree × Tree)} (entries : t.entries? = some es) :
    t.children = es.flatMap (fun e => [e.1, e.2]) := by
  cases t with
  | map | openMap => rw [← Option.some.inj entries, children]
  | _ => cases entries

theorem forall_children_of_entries? {t : Tree} {es : List (Tree × Tree)} {P : Tree → Prop}
    (entries : t.entries? = some es) :
    (∀ c ∈ t.children, P c) ↔ ∀ e ∈ es, P e.1 ∧ P e.2 := by
  simp only [children_of_entries? entries, List.mem_flatMap]
  constructor
  · intro all e mem
    exact ⟨all e.1 ⟨e, mem, by simp⟩, all e.2 ⟨e, mem, by simp⟩⟩
  · rintro all c ⟨e, mem, which⟩
    obtain rfl | rfl := by simpa using which
    · exact (all e mem).1
    · exact (all e mem).2

theorem length_children_lt (t : Tree) :
    (t.children.flatMap encode).length < t.encode.length := by
  cases t with
  | array h items =>
    have := h.length_encode_pos 4
    rw [encode, encodeAll_eq, List.length_append, children]
    omega
  | stream items =>
    rw [encode, encodeAll_eq, children, List.length_cons, List.length_append]
    omega
  | map h entries =>
    have := h.length_encode_pos 5
    simp only [encode, encodeEntries_eq, List.length_append, children, List.flatMap_assoc,
      List.flatMap_cons, List.flatMap_nil, List.append_nil]
    omega
  | openMap entries =>
    simp only [encode, encodeEntries_eq, List.length_cons, List.length_append, children,
      List.flatMap_assoc, List.flatMap_cons, List.flatMap_nil, List.append_nil]
    omega
  | tag h item =>
    have := h.length_encode_pos 6
    simp only [encode, List.length_append, children, List.flatMap_cons, List.flatMap_nil,
      List.append_nil]
    omega
  | nat h | neg h | simple h _ => exact h.length_encode_pos _
  | bytes c | text c => exact c.length_encode_pos _
  | chunks _ | texts _ => exact Nat.succ_pos _

theorem length_encode_lt {t c : Tree} (mem : c ∈ t.children) :
    c.encode.length < t.encode.length := by
  have part : c.encode.Sublist (t.children.flatMap encode) :=
    List.sublist_flatten_of_mem (List.mem_map_of_mem mem)
  exact Nat.lt_of_le_of_lt part.length_le t.length_children_lt

end Tree

end ConwayTx.Cbor
