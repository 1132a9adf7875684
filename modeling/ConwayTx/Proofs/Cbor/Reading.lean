import ConwayTx.Cbor.Reader
import ConwayTx.Proofs.Cbor.Tree
import Mathlib.Data.List.Forall2

namespace ConwayTx.Cbor

namespace Reader

variable {α β γ : Type} {r : Reader α} {P Q : α → Prop} {bs xs ys : Bytes}

/-- Whatever follows `bs`, the reader stops right behind it, and gives exactly the values of `P`. -/
def Takes (r : Reader α) (bs : Bytes) (P : α → Prop) : Prop :=
  ∀ rest a rest', r (bs ++ rest) = .ok (a, rest') ↔ P a ∧ rest' = rest

def Refuses (r : Reader α) (bs : Bytes) : Prop :=
  ∀ rest x, r (bs ++ rest) ≠ .ok x

theorem Takes.congr (h : r.Takes bs P) (iff : ∀ a, Q a ↔ P a) : r.Takes bs Q := by
  intro rest a rest'
  rw [iff]
  exact h rest a rest'

theorem Refuses.takes (h : r.Refuses bs) (none : ∀ a, ¬ P a) : r.Takes bs P := by
  intro rest a rest'
  exact ⟨fun took => absurd took (h _ _), fun ⟨holds, _⟩ => absurd holds (none a)⟩

theorem Refuses.append (h : r.Refuses xs) (ys : Bytes) : r.Refuses (xs ++ ys) := by
  intro rest x
  rw [List.append_assoc]
  exact h _ x

theorem Refuses.bind (h : r.Refuses bs) (f : α → Reader β) : (r.bind f).Refuses bs := by
  intro rest x took
  obtain ⟨_, _, first, _⟩ := bind_eq_ok_iff.mp took
  exact h _ _ first

theorem takes_pure (a : α) : (pure a).Takes [] (· = a) := by
  intro rest b rest'
  simp [pure, eq_comm]

theorem refuses_fail (e : DecodeError) (bs : Bytes) : (fail e : Reader α).Refuses bs := by
  intro rest x
  simp [fail]

theorem Takes.bind {f : α → Reader β} {R : α → β → Prop} (first : r.Takes xs P)
    (next : ∀ a, P a → (f a).Takes ys (R a)) :
    (r.bind f).Takes (xs ++ ys) (fun b => ∃ a, P a ∧ R a b) := by
  intro rest b rest'
  rw [List.append_assoc, bind_eq_ok_iff]
  constructor
  · rintro ⟨a, middle, took, more⟩
    obtain ⟨holds, rfl⟩ := (first _ _ _).mp took
    obtain ⟨also, same⟩ := (next a holds _ _ _).mp more
    exact ⟨⟨a, holds, also⟩, same⟩
  · rintro ⟨⟨a, holds, also⟩, same⟩
    exact ⟨a, _, (first _ _ _).mpr ⟨holds, rfl⟩, (next a holds _ _ _).mpr ⟨also, same⟩⟩

theorem Takes.then {f : α → Reader β} {a : α} {R : β → Prop} (first : r.Takes xs (· = a))
    (next : (f a).Takes ys R) : (r.bind f).Takes (xs ++ ys) R := by
  refine (first.bind (R := fun _ => R) ?_).congr (by simp)
  rintro _ rfl
  exact next

theorem Takes.refuse {f : α → Reader β} {a : α} (first : r.Takes xs (· = a))
    (next : (f a).Refuses ys) : (r.bind f).Refuses (xs ++ ys) := by
  intro rest x took
  rw [List.append_assoc, bind_ok ((first _ _ _).mpr ⟨rfl, rfl⟩)] at took
  exact next _ _ took

theorem Takes.map (h : r.Takes bs P) (f : α → β) :
    (r.map f).Takes bs (fun b => ∃ a, P a ∧ b = f a) := by
  have both := h.bind (fun a _ => takes_pure (f a))
  rwa [List.append_nil] at both

theorem Takes.check (h : r.Takes bs P) (f : α → Except DecodeError β) :
    (r.check f).Takes bs (fun b => ∃ a, P a ∧ f a = .ok b) := by
  have passed (a : α) : Takes (fun rest => (f a).map (·, rest)) [] (fun b => f a = .ok b) := by
    intro rest b rest'
    cases f a <;> simp [Except.map, eq_comm]
  have both := h.bind (fun a _ => passed a)
  rwa [List.append_nil] at both

theorem takes_peek {b : UInt8} {f : UInt8 → Reader β} {R : β → Prop}
    (h : (f b).Takes (b :: bs) R) : (peek.bind f).Takes (b :: bs) R := h

theorem refuses_peek {b : UInt8} {f : UInt8 → Reader β} (h : (f b).Refuses (b :: bs)) :
    (peek.bind f).Refuses (b :: bs) := h

theorem takes_byte (b : UInt8) : byte.Takes [b] (· = b) := by
  intro rest a rest'
  simp [byte, eq_comm]

theorem takes_take {n : Nat} (enough : bs.length = n) : (take n).Takes bs (· = bs) := by
  intro rest a rest'
  simp [take, Bytes.splitAt?, ← enough, eq_comm]

/-! ### Heads -/

theorem toNat_initialByte {m i : Nat} (hm : m < 8) (hi : i < 32) :
    (initialByte m i).toNat = m * 32 + i := by
  rw [initialByte, UInt8.toNat_ofNat']
  omega

theorem major_initialByte {m i : Nat} (hm : m < 8) (hi : i < 32) : major (initialByte m i) = m := by
  rw [major, toNat_initialByte hm hi]
  omega

theorem info_initialByte {m i : Nat} (hm : m < 8) (hi : i < 32) : info (initialByte m i) = i := by
  rw [info, toNat_initialByte hm hi]
  omega

theorem takes_digits {w n : Nat} (fits : n < Bytes.size w) :
    ((take w).map (fun bs => UInt64.ofNat (Bytes.toNat bs))).Takes (Bytes.ofNat w n)
      (· = UInt64.ofNat n) :=
  ((takes_take (Bytes.length_ofNat w n)).map _).congr (by simp [Bytes.toNat_ofNat fits])

variable {n m : Nat}

theorem takes_argument (h : Head n) (hm : m < 8) :
    (argument (initialByte m (h.width.info n))).Takes (Bytes.ofNat h.width.bytes n)
      (· = UInt64.ofNat n) := by
  obtain ⟨width, fits⟩ := h
  cases width with
  | inline =>
    have small : n < 24 := fits
    simp only [argument, Width.info, info_initialByte hm (show n < 32 by omega), if_pos small]
    exact takes_pure _
  | one | two | four | eight =>
    simpa [argument, Width.info, Width.bytes, info_initialByte hm] using takes_digits fits

theorem major_head (h : Head n) (hm : m < 8) : major (initialByte m (h.width.info n)) = m :=
  major_initialByte hm (Nat.lt_trans h.info_lt (by decide))

theorem takes_header (h : Head n) (hm : m < 8) :
    (header m).Takes (h.encode m) (· = UInt64.ofNat n) := by
  apply Takes.then (takes_byte _)
  rw [if_pos (major_head h hm)]
  exact takes_argument h hm

theorem refuses_header {b : UInt8} (other : major b ≠ m) (bs : Bytes) :
    (header m).Refuses (b :: bs) := by
  apply Takes.refuse (takes_byte b)
  rw [if_neg other]
  exact refuses_fail _ _

theorem takes_containerHeader (h : Head n) (hm : m < 8) :
    (containerHeader m).Takes (h.encode m) (· = some (UInt64.ofNat n)) := by
  apply Takes.then (takes_byte _)
  have closed : info (initialByte m (h.width.info n)) ≠ 31 := by
    rw [info_initialByte hm (Nat.lt_trans h.info_lt (by decide))]
    exact Nat.ne_of_lt (Nat.lt_trans h.info_lt (by decide))
  rw [if_neg (not_not.mpr (major_head h hm)), if_neg closed]
  exact ((takes_argument h hm).map some).congr (by simp)

theorem takes_openHeader (hm : m < 8) :
    (containerHeader m).Takes [initialByte m 31] (· = none) := by
  apply Takes.then (takes_byte _)
  rw [if_neg (not_not.mpr (major_initialByte hm (by decide))),
    if_pos (info_initialByte hm (by decide))]
  exact takes_pure none

theorem refuses_containerHeader {b : UInt8} (other : major b ≠ m) (bs : Bytes) :
    (containerHeader m).Refuses (b :: bs) := by
  apply Takes.refuse (takes_byte b)
  rw [if_pos other]
  exact refuses_fail _ _

theorem takes_nat_int (h : Head n) : int.Takes (h.encode 0) (· = (n : Int)) := by
  apply Takes.then (takes_byte _)
  rw [if_pos (major_head h (by decide))]
  refine ((takes_argument h (by decide)).map _).congr ?_
  simp [UInt64.toNat_ofNat_of_lt' h.lt_size]

theorem takes_neg_int (h : Head n) : int.Takes (h.encode 1) (· = -1 - (n : Int)) := by
  apply Takes.then (takes_byte _)
  rw [if_neg (by rw [major_head h (by decide)]; decide), if_pos (major_head h (by decide))]
  refine ((takes_argument h (by decide)).map _).congr ?_
  simp [UInt64.toNat_ofNat_of_lt' h.lt_size]

theorem refuses_int {b : UInt8} (other : 2 ≤ major b) (bs : Bytes) : int.Refuses (b :: bs) := by
  apply Takes.refuse (takes_byte b)
  rw [if_neg (by omega), if_neg (by omega)]
  exact refuses_fail _ _

theorem takes_bytes (c : Chunk) : bytes.Takes (c.encode 2) (· = c.content) := by
  apply Takes.then (takes_header c.head (by decide))
  exact takes_take (UInt64.toNat_ofNat_of_lt' c.head.lt_size).symm

/-! ### Repetition -/

theorem forall₂_eq_map {f : α → β} {as : List α} {bs : List β} :
    List.Forall₂ (fun a b => b = f a) as bs ↔ bs = as.map f := by
  induction as generalizing bs with
  | nil => simp
  | cons a as ih => simp [List.forall₂_cons_left_iff, ih]

variable {ι : Type} {enc : ι → Bytes} {V : ι → α → Prop} {is : List ι}

theorem takes_times (each : ∀ i ∈ is, r.Takes (enc i) (V i)) :
    (times is.length r).Takes (is.flatMap enc) (List.Forall₂ V is) := by
  induction is with
  | nil => exact (takes_pure []).congr (by simp)
  | cons i is ih =>
    have first := each i List.mem_cons_self
    have more := ih (fun j mem => each j (List.mem_cons_of_mem i mem))
    refine (first.bind (fun a _ => more.map (a :: ·))).congr fun as => ?_
    simp [List.forall₂_cons_left_iff]

theorem takes_untilBreak (each : ∀ i ∈ is, r.Takes (enc i) (V i))
    (goesOn : ∀ i ∈ is, ∃ b bs, enc i = b :: bs ∧ b ≠ breakByte) {fuel : Nat}
    (enough : is.length < fuel) :
    (untilBreak fuel r).Takes (is.flatMap enc ++ [breakByte]) (List.Forall₂ V is) := by
  induction is generalizing fuel with
  | nil =>
    obtain ⟨fuel, rfl⟩ : ∃ k, fuel = k + 1 := ⟨fuel - 1, by simp at enough; omega⟩
    apply takes_peek
    rw [if_pos rfl]
    exact ((takes_byte breakByte).map _).congr (by simp)
  | cons i is ih =>
    obtain ⟨fuel, rfl⟩ : ∃ k, fuel = k + 1 := ⟨fuel - 1, by simp at enough; omega⟩
    have first := each i List.mem_cons_self
    have more := ih (fun j mem => each j (List.mem_cons_of_mem i mem))
      (fun j mem => goesOn j (List.mem_cons_of_mem i mem)) (Nat.lt_of_succ_lt_succ enough)
    obtain ⟨b, bs, eq, notBreak⟩ := goesOn i List.mem_cons_self
    have both := first.bind (fun a _ => more.map (a :: ·))
    rw [eq, ← List.append_assoc] at both
    rw [List.flatMap_cons, eq]
    apply takes_peek
    rw [if_neg notBreak]
    refine both.congr fun as => ?_
    simp [List.forall₂_cons_left_iff]

theorem length_le_flatMap (goesOn : ∀ i ∈ is, ∃ b bs, enc i = b :: bs ∧ b ≠ breakByte) :
    is.length ≤ (is.flatMap enc).length := by
  induction is with
  | nil => exact Nat.zero_le _
  | cons i is ih =>
    obtain ⟨b, bs, eq, _⟩ := goesOn i List.mem_cons_self
    have rest := ih (fun j mem => goesOn j (List.mem_cons_of_mem i mem))
    simp only [List.flatMap_cons, eq, List.length_cons, List.length_append]
    omega

theorem takes_repeated_some (each : ∀ i ∈ is, r.Takes (enc i) (V i)) (h : Head n)
    (count : is.length = n) :
    (repeated (some (UInt64.ofNat n)) r).Takes (is.flatMap enc) (List.Forall₂ V is) := by
  have counted := takes_times each
  rwa [count, ← UInt64.toNat_ofNat_of_lt' h.lt_size] at counted

theorem takes_repeated_none (each : ∀ i ∈ is, r.Takes (enc i) (V i))
    (goesOn : ∀ i ∈ is, ∃ b bs, enc i = b :: bs ∧ b ≠ breakByte) :
    (repeated none r).Takes (is.flatMap enc ++ [breakByte]) (List.Forall₂ V is) := by
  intro rest as rest'
  have := length_le_flatMap goesOn
  apply takes_untilBreak each goesOn
  simp only [List.length_append]
  omega

theorem takes_container (hm : m < 8) (each : ∀ i ∈ is, r.Takes (enc i) (V i)) (h : Head n)
    (count : is.length = n) :
    ((containerHeader m).bind (fun length => repeated length r)).Takes
      (h.encode m ++ is.flatMap enc) (List.Forall₂ V is) :=
  (takes_containerHeader h hm).then (takes_repeated_some each h count)

theorem takes_openContainer (hm : m < 8) (each : ∀ i ∈ is, r.Takes (enc i) (V i))
    (goesOn : ∀ i ∈ is, ∃ b bs, enc i = b :: bs ∧ b ≠ breakByte) :
    ((containerHeader m).bind (fun length => repeated length r)).Takes
      (initialByte m 31 :: (is.flatMap enc ++ [breakByte])) (List.Forall₂ V is) :=
  (takes_openHeader hm).then (takes_repeated_none each goesOn)

end Reader

/-! ### Trees -/

theorem Head.ne_breakByte {n m : Nat} (h : Head n) (hm : m < 8) :
    initialByte m (h.width.info n) ≠ breakByte := by
  intro eq
  have lt := h.info_lt
  have info := Reader.info_initialByte hm (Nat.lt_trans lt (by decide))
  rw [eq, show Reader.info breakByte = 31 from rfl] at info
  omega

namespace Tree

theorem encode_eq_cons (t : Tree) :
    ∃ b bs, t.encode = b :: bs ∧ Reader.major b = t.major ∧ b ≠ breakByte := by
  cases t with
  | nat h | neg h | simple h _ =>
    exact ⟨_, _, rfl, Reader.major_head h (by decide), h.ne_breakByte (by decide)⟩
  | array h _ | map h _ | tag h _ =>
    exact ⟨_, _, rfl, Reader.major_head h (by decide), h.ne_breakByte (by decide)⟩
  | bytes c | text c =>
    exact ⟨_, _, rfl, Reader.major_head c.head (by decide), c.head.ne_breakByte (by decide)⟩
  | chunks _ | texts _ | stream _ | openMap _ =>
    exact ⟨_, _, rfl, Reader.major_initialByte (by decide) (by decide), by decide⟩

theorem goesOn (t : Tree) : ∃ b bs, t.encode = b :: bs ∧ b ≠ breakByte := by
  obtain ⟨b, bs, eq, _, notBreak⟩ := t.encode_eq_cons
  exact ⟨b, bs, eq, notBreak⟩

end Tree

namespace Reader

variable {α β : Type} {r : Reader α} {m : Nat} {t : Tree}

theorem refuses_header_encode (other : t.major ≠ m) : (header m).Refuses t.encode := by
  obtain ⟨b, bs, eq, major, _⟩ := t.encode_eq_cons
  rw [eq]
  exact refuses_header (major ▸ other) bs

theorem refuses_containerHeader_encode (other : t.major ≠ m) :
    (containerHeader m).Refuses t.encode := by
  obtain ⟨b, bs, eq, major, _⟩ := t.encode_eq_cons
  rw [eq]
  exact refuses_containerHeader (major ▸ other) bs

theorem takes_arrayOf {V : Tree → α → Prop}
    (each : ∀ c ∈ t.children, r.Takes c.encode (V c)) :
    (arrayOf r).Takes t.encode (fun as => ∃ ts, t.items? = some ts ∧ List.Forall₂ V ts as) := by
  cases t with
  | array h items =>
    rw [Tree.encode, Tree.encodeAll_eq]
    refine (takes_container (by decide) each h items.length_toList).congr ?_
    simp [Tree.items?, Tree.children]
  | stream items =>
    rw [Tree.encode, Tree.encodeAll_eq]
    refine (takes_openContainer (by decide) each fun c _ => c.goesOn).congr ?_
    simp [Tree.items?, Tree.children]
  | _ =>
    refine ((refuses_containerHeader_encode ?_).bind _).takes ?_
    · simp [Tree.major]
    · simp [Tree.items?]

theorem takes_mapOf {value : Reader β} {V : Tree → α → Prop} {W : Tree → β → Prop}
    (keys : ∀ c ∈ t.children, r.Takes c.encode (V c))
    (values : ∀ c ∈ t.children, value.Takes c.encode (W c)) :
    (mapOf r value).Takes t.encode (fun ps => ∃ es, t.entries? = some es ∧
      List.Forall₂ (fun e p => V e.1 p.1 ∧ W e.2 p.2) es ps) := by
  have pair {es : List (Tree × Tree)} (entries : t.entries? = some es) :
      ∀ e ∈ es, (r.bind (fun k => value.map (fun v => (k, v)))).Takes (e.1.encode ++ e.2.encode)
        (fun p => V e.1 p.1 ∧ W e.2 p.2) := by
    intro e mem
    have key := ((Tree.forall_children_of_entries? entries).mp keys e mem).1
    have value := ((Tree.forall_children_of_entries? entries).mp values e mem).2
    refine (key.bind (fun k _ => value.map (fun v => (k, v)))).congr ?_
    rintro ⟨k, v⟩
    simp
  cases t with
  | map h entries =>
    rw [Tree.encode, Tree.encodeEntries_eq]
    refine (takes_container (by decide) (pair rfl) h entries.length_toList).congr ?_
    simp [Tree.entries?]
  | openMap entries =>
    rw [Tree.encode, Tree.encodeEntries_eq]
    refine (takes_openContainer (by decide) (pair rfl) fun e _ => ?_).congr ?_
    · obtain ⟨b, bs, eq, notBreak⟩ := e.1.goesOn
      exact ⟨b, bs ++ e.2.encode, by rw [eq, List.cons_append], notBreak⟩
    · simp [Tree.entries?]
  | _ =>
    refine ((refuses_containerHeader_encode ?_).bind _).takes ?_
    · simp [Tree.major]
    · simp [Tree.entries?]

theorem refuses_chunkedBytes (other : t.major ≠ 2) : chunkedBytes.Refuses t.encode := by
  obtain ⟨b, bs, eq, same, _⟩ := t.encode_eq_cons
  have piece : b ≠ initialByte 2 31 := by
    rintro rfl
    exact other (same.symm.trans (major_initialByte (by decide) (by decide)))
  rw [eq]
  apply refuses_peek
  rw [if_neg piece]
  exact (refuses_header (same ▸ other) bs).bind _

theorem takes_chunkedBytes (t : Tree) :
    chunkedBytes.Takes t.encode (fun b => t.content? = some b) := by
  cases t with
  | bytes c =>
    apply takes_peek
    rw [if_neg ?_]
    · exact (takes_bytes c).congr (by simp [Tree.content?, eq_comm])
    · intro eq
      have info := congrArg info eq
      have lt := c.head.info_lt
      rw [info_initialByte (by decide) (by omega), info_initialByte (by decide) (by decide)] at info
      omega
  | chunks pieces =>
    apply takes_peek
    rw [if_pos rfl]
    have pieces := takes_repeated_none (fun c (_ : c ∈ pieces) => takes_bytes c) fun c _ =>
      ⟨_, _, rfl, c.head.ne_breakByte (by decide)⟩
    refine ((takes_byte (initialByte 2 31)).then (pieces.map List.flatten)).congr fun b => ?_
    simp [Tree.content?, forall₂_eq_map, List.flatMap_def, eq_comm]
  | _ =>
    refine (refuses_chunkedBytes ?_).takes ?_
    · simp [Tree.major]
    · simp [Tree.content?]

end Reader

end ConwayTx.Cbor
