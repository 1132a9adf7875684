import ConwayTx.Proofs.Cbor.Reading

namespace ConwayTx.Cbor

/-- What begins with the bytes of `a` begins with those of nothing else. -/
def Delimited {α : Type} (enc : α → Bytes) (a : α) : Prop :=
  ∀ a' r r', enc a ++ r = enc a' ++ r' → a = a' ∧ r = r'

theorem Delimited.flip {α : Type} {enc : α → Bytes} {a a' : α} {r r' : Bytes}
    (delimited : Delimited enc a') (h : enc a ++ r = enc a' ++ r') : a = a' ∧ r = r' :=
  (delimited a r' r h.symm).imp Eq.symm Eq.symm

theorem flatMap_append_inj {α : Type} {enc : α → Bytes} {as as' : List α} {r r' : Bytes}
    (apart : ∀ a ∈ as, ∀ a' ∈ as', ∀ x x', enc a ++ x = enc a' ++ x' → a = a' ∧ x = x')
    (count : as.length = as'.length)
    (h : as.flatMap enc ++ r = as'.flatMap enc ++ r') : as = as' ∧ r = r' := by
  induction as generalizing as' with
  | nil =>
    obtain rfl := List.length_eq_zero_iff.mp count.symm
    exact ⟨rfl, h⟩
  | cons a as ih =>
    cases as' with
    | nil => cases count
    | cons a' as' =>
      rw [List.flatMap_cons, List.flatMap_cons, List.append_assoc, List.append_assoc] at h
      obtain ⟨rfl, later⟩ := apart a List.mem_cons_self a' List.mem_cons_self _ _ h
      obtain ⟨rfl, after⟩ := ih (fun b mem b' mem' =>
        apart b (List.mem_cons_of_mem a mem) b' (List.mem_cons_of_mem a mem'))
        (Nat.succ.inj count) later
      exact ⟨rfl, after⟩

section Sequences

variable {α : Type} {enc : α → Bytes} {as as' : List α} {r r' : Bytes}
  (each : ∀ a ∈ as, Delimited enc a)
include each

theorem flatMap_delimited (count : as.length = as'.length)
    (h : as.flatMap enc ++ r = as'.flatMap enc ++ r') : as = as' ∧ r = r' :=
  flatMap_append_inj (fun a mem a' _ => each a mem a') count h

theorem flatMap_break_delimited (goesOn : ∀ a, ∃ b bs, enc a = b :: bs ∧ b ≠ breakByte)
    (h : as.flatMap enc ++ [breakByte] ++ r = as'.flatMap enc ++ [breakByte] ++ r') :
    as = as' ∧ r = r' := by
  have stops (a : α) (x y : Bytes) : enc a ++ x ≠ breakByte :: y := by
    obtain ⟨b, bs, eq, ne⟩ := goesOn a
    rw [eq, List.cons_append, ne_eq, List.cons.injEq]
    exact fun same => ne same.1
  induction as generalizing as' with
  | nil =>
    cases as' with
    | nil => exact ⟨rfl, (List.cons.inj h).2⟩
    | cons a' as' =>
      simp only [List.flatMap_nil, List.flatMap_cons, List.nil_append, List.append_assoc,
        List.singleton_append] at h
      exact absurd h.symm (stops a' _ _)
  | cons a as ih =>
    cases as' with
    | nil =>
      simp only [List.flatMap_nil, List.flatMap_cons, List.nil_append, List.append_assoc,
        List.singleton_append] at h
      exact absurd h (stops a _ _)
    | cons a' as' =>
      simp only [List.flatMap_cons, List.append_assoc] at h ih
      obtain ⟨rfl, later⟩ := each a List.mem_cons_self _ _ _ h
      obtain ⟨rfl, after⟩ := ih (fun b mem => each b (List.mem_cons_of_mem a mem)) later
      exact ⟨rfl, after⟩

end Sequences

abbrev Front : Type := Fin 8 × Option (Σ n, Head n)

namespace Front

def info : Front → Nat
  | (_, some ⟨n, h⟩) => h.width.info n
  | (_, none) => 31

def digits : Front → Bytes
  | (_, some ⟨n, h⟩) => Bytes.ofNat h.width.bytes n
  | (_, none) => []

def encode (f : Front) : Bytes := initialByte f.1 f.info :: f.digits

theorem info_lt (f : Front) : f.info < 32 := by
  obtain ⟨m, _ | ⟨n, h⟩⟩ := f
  · exact Nat.lt_succ_self 31
  · exact Nat.lt_trans h.info_lt (by decide)

end Front

theorem Width.eq_of_info {w w' : Width} {n n' : Nat} (fits : n < w.limit) (fits' : n' < w'.limit)
    (h : w.info n = w'.info n') : w = w' := by
  cases w <;> cases w' <;> simp only [Width.info, Width.limit] at h fits fits' <;>
    first | rfl | omega

theorem Head.eq_of_info {n n' : Nat} {h : Head n} {h' : Head n'} {r r' : Bytes}
    (info : h.width.info n = h'.width.info n')
    (rest : Bytes.ofNat h.width.bytes n ++ r = Bytes.ofNat h'.width.bytes n' ++ r') :
    (⟨n, h⟩ : Σ n, Head n) = ⟨n', h'⟩ ∧ r = r' := by
  obtain ⟨w, fits⟩ := h
  obtain ⟨w', fits'⟩ := h'
  obtain rfl := Width.eq_of_info fits fits' info
  obtain ⟨digits, rfl⟩ := List.append_inj rest (by simp)
  obtain rfl : n = n' := by
    cases w with
    | inline => exact info
    | one | two | four | eight =>
      have value := congrArg Bytes.toNat digits
      rwa [Bytes.toNat_ofNat fits, Bytes.toNat_ofNat fits'] at value
  exact ⟨rfl, rfl⟩

theorem Front.delimited (f : Front) : Delimited encode f := by
  intro f' r r' h
  obtain ⟨first, rest⟩ := List.cons.inj h
  have major := congrArg Reader.major first
  have info := congrArg Reader.info first
  rw [Reader.major_initialByte f.1.isLt f.info_lt, Reader.major_initialByte f'.1.isLt f'.info_lt]
    at major
  rw [Reader.info_initialByte f.1.isLt f.info_lt, Reader.info_initialByte f'.1.isLt f'.info_lt]
    at info
  obtain ⟨m, k⟩ := f
  obtain ⟨m', k'⟩ := f'
  obtain rfl : m = m' := Fin.ext major
  -- An argument is told from an open length by the five bits, as no argument sets them all.
  match k, k' with
  | none, none => exact ⟨rfl, rest⟩
  | some ⟨n, k⟩, none =>
    have small : k.width.info n < 31 := Nat.lt_trans k.info_lt (by decide)
    exact absurd info (Nat.ne_of_lt small)
  | none, some ⟨n, k⟩ =>
    have small : k.width.info n < 31 := Nat.lt_trans k.info_lt (by decide)
    exact absurd info (Nat.ne_of_gt small)
  | some ⟨n, k⟩, some ⟨n', k'⟩ =>
    obtain ⟨same, after⟩ := Head.eq_of_info info rest
    exact ⟨by rw [same], after⟩

theorem head_append_inj (m m' : Fin 8) {n n' : Nat} {r r' : Bytes} (fits : n < UInt64.size)
    (fits' : n' < UInt64.size) (h : head m n ++ r = head m' n' ++ r') :
    m = m' ∧ n = n' ∧ r = r' := by
  rw [← Head.encode_least m n fits, ← Head.encode_least m' n' fits'] at h
  obtain ⟨fronts, rest⟩ :=
    Front.delimited (m, some ⟨n, .least n fits⟩) (m', some ⟨n', .least n' fits'⟩) r r' h
  obtain ⟨major, argument⟩ := Prod.mk.inj fronts
  exact ⟨major, congrArg Sigma.fst (Option.some.inj argument), rest⟩

theorem Chunk.eq_of_heads {c c' : Chunk} {r r' : Bytes}
    (heads : (⟨_, c.head⟩ : Σ n, Head n) = ⟨_, c'.head⟩)
    (rest : c.content ++ r = c'.content ++ r') : c = c' ∧ r = r' := by
  obtain ⟨b, h⟩ := c
  obtain ⟨b', h'⟩ := c'
  obtain ⟨rfl, rfl⟩ := List.append_inj rest (congrArg Sigma.fst heads)
  cases heads
  exact ⟨rfl, rfl⟩

theorem Chunk.delimited (m : Fin 8) (c : Chunk) : Delimited (Chunk.encode m) c := by
  intro c' r r' h
  rw [encode, encode, List.append_assoc, List.append_assoc] at h
  obtain ⟨fronts, rest⟩ := Front.delimited (m, some ⟨_, c.head⟩) (m, some ⟨_, c'.head⟩) _ _ h
  exact eq_of_heads (Option.some.inj (Prod.mk.inj fronts).2) rest

theorem Chunk.goesOn (m : Fin 8) (c : Chunk) : ∃ b bs, c.encode m = b :: bs ∧ b ≠ breakByte :=
  ⟨_, _, rfl, c.head.ne_breakByte m.isLt⟩

theorem pieces_delimited (m : Fin 8) {ps ps' : List Chunk} {r r' : Bytes}
    (h : ps.flatMap (Chunk.encode m) ++ [breakByte] ++ r =
      ps'.flatMap (Chunk.encode m) ++ [breakByte] ++ r') : ps = ps' ∧ r = r' :=
  flatMap_break_delimited (fun p _ => p.delimited m) (Chunk.goesOn m) h

theorem Members.eq_of_toList {α : Type} {n n' : Nat} {ms : Members α n} {ms' : Members α n'}
    (h : ms.toList = ms'.toList) : (⟨n, ms⟩ : Σ n, Members α n) = ⟨n', ms'⟩ := by
  induction ms generalizing n' with
  | nil =>
    cases ms' with
    | nil => rfl
    | cons => cases h
  | cons first rest ih =>
    cases ms' with
    | nil => cases h
    | cons first' rest' =>
      obtain ⟨rfl, later⟩ := List.cons.inj h
      cases ih later
      rfl

namespace Tree

def encodeEntry (e : Tree × Tree) : Bytes := e.1.encode ++ e.2.encode

theorem encodeEntry_goesOn (e : Tree × Tree) : ∃ b bs, encodeEntry e = b :: bs ∧ b ≠ breakByte := by
  obtain ⟨b, bs, eq, ne⟩ := e.1.goesOn
  exact ⟨b, bs ++ e.2.encode, by rw [encodeEntry, eq, List.cons_append], ne⟩

theorem encodeEntry_delimited {e : Tree × Tree} (key : Delimited encode e.1)
    (value : Delimited encode e.2) : Delimited encodeEntry e := by
  rintro ⟨key', value'⟩ r r' h
  simp only [encodeEntry, List.append_assoc] at h
  obtain ⟨rfl, rest⟩ := key _ _ _ h
  obtain ⟨rfl, after⟩ := value _ _ _ rest
  exact ⟨rfl, after⟩

def front : Tree → Front
  | @nat n h => (0, some ⟨n, h⟩)
  | @neg n h => (1, some ⟨n, h⟩)
  | bytes c => (2, some ⟨_, c.head⟩)
  | chunks _ => (2, none)
  | text c => (3, some ⟨_, c.head⟩)
  | texts _ => (3, none)
  | @array n h _ => (4, some ⟨n, h⟩)
  | stream _ => (4, none)
  | @map n h _ => (5, some ⟨n, h⟩)
  | openMap _ => (5, none)
  | @tag n h _ => (6, some ⟨n, h⟩)
  | @simple n h _ => (7, some ⟨n, h⟩)

def behind : Tree → Bytes
  | nat _ | neg _ | simple _ _ => []
  | bytes c | text c => c.content
  | chunks ps => ps.flatMap (Chunk.encode 2) ++ [breakByte]
  | texts ps => ps.flatMap (Chunk.encode 3) ++ [breakByte]
  | array _ items => items.toList.flatMap encode
  | stream items => items.toList.flatMap encode ++ [breakByte]
  | map _ entries => entries.toList.flatMap encodeEntry
  | openMap entries => entries.toList.flatMap encodeEntry ++ [breakByte]
  | tag _ item => item.encode

theorem encode_eq (t : Tree) : t.encode = t.front.encode ++ t.behind := by
  cases t with
  | nat | neg | simple => exact (List.append_nil _).symm
  | bytes | text | chunks | texts | tag => rfl
  | array k items => rw [encode, encodeAll_eq]; rfl
  | stream items => rw [encode, encodeAll_eq]; rfl
  | map k entries => rw [encode, encodeEntries_eq]; rfl
  | openMap entries => rw [encode, encodeEntries_eq]; rfl

theorem delimited (t : Tree) : Delimited encode t := by
  have inside : ∀ c ∈ t.children, Delimited encode c := fun c mem => delimited c
  have entries {es : List (Tree × Tree)} (found : t.entries? = some es) :
      ∀ e ∈ es, Delimited encodeEntry e := fun e mem =>
    have both := (forall_children_of_entries? found).mp inside e mem
    encodeEntry_delimited both.1 both.2
  intro t' r r' h
  rw [encode_eq t, encode_eq t', List.append_assoc, List.append_assoc] at h
  obtain ⟨fronts, rest⟩ := Front.delimited _ _ _ _ h
  -- The front tells the constructor, and what follows then tells its arguments.
  cases t with
  | nat k =>
    cases t' with
    | nat k' =>
      cases fronts
      exact ⟨rfl, rest⟩
    | _ => simp [front] at fronts
  | neg k =>
    cases t' with
    | neg k' =>
      cases fronts
      exact ⟨rfl, rest⟩
    | _ => simp [front] at fronts
  | simple k assigned =>
    cases t' with
    | simple k' assigned' =>
      cases fronts
      exact ⟨rfl, rest⟩
    | _ => simp [front] at fronts
  | tag k item =>
    cases t' with
    | tag k' item' =>
      cases fronts
      obtain ⟨rfl, after⟩ := inside item (by simp [children]) _ _ _ rest
      exact ⟨rfl, after⟩
    | _ => simp [front] at fronts
  | bytes c =>
    cases t' with
    | bytes c' =>
      have heads := Option.some.inj (Prod.mk.inj fronts).2
      obtain ⟨rfl, after⟩ := Chunk.eq_of_heads heads rest
      exact ⟨rfl, after⟩
    | _ => simp [front] at fronts
  | text c =>
    cases t' with
    | text c' =>
      have heads := Option.some.inj (Prod.mk.inj fronts).2
      obtain ⟨rfl, after⟩ := Chunk.eq_of_heads heads rest
      exact ⟨rfl, after⟩
    | _ => simp [front] at fronts
  | chunks ps =>
    cases t' with
    | chunks ps' =>
      obtain ⟨rfl, after⟩ := pieces_delimited 2 rest
      exact ⟨rfl, after⟩
    | _ => simp [front] at fronts
  | texts ps =>
    cases t' with
    | texts ps' =>
      obtain ⟨rfl, after⟩ := pieces_delimited 3 rest
      exact ⟨rfl, after⟩
    | _ => simp [front] at fronts
  | array k items =>
    cases t' with
    | array k' items' =>
      cases fronts
      have count := items.length_toList.trans items'.length_toList.symm
      obtain ⟨listed, after⟩ := flatMap_delimited inside count rest
      cases Members.eq_of_toList listed
      exact ⟨rfl, after⟩
    | _ => simp [front] at fronts
  | stream items =>
    cases t' with
    | stream items' =>
      obtain ⟨listed, after⟩ := flatMap_break_delimited inside goesOn rest
      cases Members.eq_of_toList listed
      exact ⟨rfl, after⟩
    | _ => simp [front] at fronts
  | map k es =>
    cases t' with
    | map k' es' =>
      cases fronts
      have count := es.length_toList.trans es'.length_toList.symm
      obtain ⟨listed, after⟩ := flatMap_delimited (entries rfl) count rest
      cases Members.eq_of_toList listed
      exact ⟨rfl, after⟩
    | _ => simp [front] at fronts
  | openMap es =>
    cases t' with
    | openMap es' =>
      obtain ⟨listed, after⟩ := flatMap_break_delimited (entries rfl) encodeEntry_goesOn rest
      cases Members.eq_of_toList listed
      exact ⟨rfl, after⟩
    | _ => simp [front] at fronts
termination_by t.encode.length
decreasing_by exact length_encode_lt mem

/-- Bytes that hold an item hold no other, and nothing after it. -/
theorem eq_of_encode_append {t t' : Tree} {r : Bytes} (h : t'.encode ++ r = t.encode) :
    t' = t ∧ r = [] :=
  t'.delimited t r [] (by rw [h, List.append_nil])

end Tree

end ConwayTx.Cbor
