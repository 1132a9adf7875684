import ConwayTx.Proofs.Cbor.Reading
import ConwayTx.Proofs.Except
import ConwayTx.Proofs.Plutus.Grammar

namespace ConwayTx.PlutusData

open Cbor

def Loose : Tree → Prop
  | @Tree.array n _ _ => n ≠ 2
  | .stream _ => True
  | _ => False

/-- Behind tag 102 no array stands but one that announces two members. -/
def Paired : Tree → Prop
  | @Tree.tag t _ item => t = 102 → ¬ Loose item
  | _ => True

def Narrow : Tree → Prop
  | @Tree.tag t _ item => t = 2 ∨ t = 3 → ∀ b, item.content? = some b → b.length ≤ 16
  | _ => True

theorem paired_of_untagged {t : Tree} (untagged : t.major ≠ 6) : Paired t := by
  cases t with
  | tag => exact absurd rfl untagged
  | _ => trivial

theorem narrow_of_untagged {t : Tree} (untagged : t.major ≠ 6) : Narrow t := by
  cases t with
  | tag => exact absurd rfl untagged
  | _ => trivial

theorem narrow_of_content? {t : Tree} {b : Bytes} (content : t.content? = some b) :
    t.Everywhere Narrow := by
  refine .leaf (narrow_of_untagged ?_) (Tree.children_of_content? content)
  simp [Tree.major_of_content? content]

theorem bignum_eq_ok_iff {z : Int} {d : PlutusData} :
    bignum z = .ok d ↔ ∃ n : Int128, n.toInt = z ∧ d = .int n := by
  simp only [← Int128.ofInt?_eq_some_iff, bignum]
  cases Int128.ofInt? z <;> simp [eq_comm]

theorem magnitude_bind_eq_ok_iff {b : Bytes} {number : Nat → Int} {d : PlutusData} :
    (magnitude b).bind (fun m => bignum (number m)) = .ok d ↔
      b.length ≤ 16 ∧ ∃ n : Int128, n.toInt = number (Bytes.toNat b) ∧ d = .int n := by
  rw [← bignum_eq_ok_iff]
  by_cases wide : b.length > 16
  · simp [magnitude, wide, Except.bind, Nat.not_le.mpr wide]
  · simp [magnitude, wide, Except.bind, Nat.le_of_not_lt wide]

theorem takes_readInt {z : Int} {bs : Bytes} (h : Reader.int.Takes bs (· = z)) :
    readInt.Takes bs (fun d => ∃ n : Int128, n.toInt = z ∧ d = .int n) := by
  refine (h.check _).congr fun d => ?_
  simp only [exists_eq_left, ← Int128.ofInt?_eq_some_iff]
  cases Int128.ofInt? z <;> simp [eq_comm]

section Tags

variable {fields : Reader (List PlutusData)} {u c : UInt64} {k : Nat} {h : Head k} {item : Tree}
  {d : PlutusData}

theorem readTagged_own (own : OwnTag u.toNat c) :
    readTagged fields u = fields.map (constr c) := by
  obtain ⟨small, eq⟩ | ⟨low, high, eq⟩ := own
  · have range : 121 ≤ u ∧ u ≤ 127 := by
      simp only [UInt64.le_iff_toNat_le, UInt64.reduceToNat]
      omega
    have number : u - 121 = c := by
      apply UInt64.toNat_inj.mp
      simp only [UInt64.toNat_sub_of_le _ _ range.1, UInt64.reduceToNat]
      omega
    rw [readTagged, if_pos range, number]
  · have range : 1280 ≤ u ∧ u ≤ 1400 := by
      simp only [UInt64.le_iff_toNat_le, UInt64.reduceToNat]
      omega
    have above : ¬ (121 ≤ u ∧ u ≤ 127) := by
      simp only [UInt64.le_iff_toNat_le, UInt64.reduceToNat]
      omega
    have number : u - 1280 + 7 = c := by
      apply UInt64.toNat_inj.mp
      simp only [UInt64.toNat_add, UInt64.toNat_sub_of_le _ _ range.1, UInt64.reduceToNat]
      omega
    rw [readTagged, if_neg above, if_pos range, number]

theorem readTagged_other (own : ∀ c, ¬ OwnTag u.toNat c) (general : u.toNat ≠ 102)
    (positive : u.toNat ≠ 2) (negative : u.toNat ≠ 3) :
    readTagged fields u = Reader.fail (.unexpectedTag u) := by
  rw [← not_exists, exists_ownTag_iff] at own
  simp only [← UInt64.toNat_inj, UInt64.le_iff_toNat_le, readTagged, UInt64.reduceToNat]
  rw [if_neg (by omega), if_neg (by omega), if_neg general, if_neg positive, if_neg negative]

theorem narrow_tag_iff : (Tree.tag h item).Everywhere Narrow ↔
    (k = 2 ∨ k = 3 → ∀ b, item.content? = some b → b.length ≤ 16) ∧ item.Everywhere Narrow := by
  rw [Tree.everywhere_iff]
  simp [Tree.children, Narrow]

theorem takes_magnitude (number : Nat → Int) (positive : k = 2 ∨ k = 3)
    (denotes : ∀ d, Denotes (.tag h item) d ↔ ∃ b, item.content? = some b ∧
      ∃ n : Int128, n.toInt = number (Bytes.toNat b) ∧ d = .int n) :
    (Reader.chunkedBytes.check (fun bs => (magnitude bs).bind (fun m => bignum (number m)))).Takes
      item.encode (fun d => (Tree.tag h item).Everywhere Narrow ∧ Denotes (.tag h item) d) := by
  refine ((Reader.takes_chunkedBytes item).check _).congr fun d => ?_
  rw [narrow_tag_iff, denotes]
  constructor
  · rintro ⟨⟨short, _⟩, b, content, value⟩
    exact ⟨b, content, magnitude_bind_eq_ok_iff.mpr ⟨short positive b content, value⟩⟩
  · rintro ⟨b, content, read⟩
    obtain ⟨short, value⟩ := magnitude_bind_eq_ok_iff.mp read
    refine ⟨⟨fun _ b' content' => ?_, narrow_of_content? content⟩, b, content, value⟩
    obtain rfl := Option.some.inj (content.symm.trans content')
    exact short

theorem takes_numbered {opening : Bytes} {announced : Option UInt64} {m : Nat} (i : Head m)
    {P : List PlutusData → Prop} (first : Reader.arrayHeader.Takes opening (· = announced))
    (last : fields.Takes item.encode P) :
    (readTagged fields 102).Takes (opening ++ (i.encode 0 ++ item.encode))
      (fun d => ∃ ds, P ds ∧ d = .constr (UInt64.ofNat m) ds) :=
  first.then ((Reader.takes_header i (by decide)).then (last.map (constr (UInt64.ofNat m))))

theorem refuses_numbered {opening : Bytes} {announced : Option UInt64}
    (first : Reader.arrayHeader.Takes opening (· = announced)) (other : item.major ≠ 0)
    (more : Bytes) : (readTagged fields 102).Refuses (opening ++ (item.encode ++ more)) :=
  first.refuse (((Reader.refuses_header_encode other).bind _).append more)

theorem takes_pair (announced : ¬ Loose item)
    (body : ∀ s ∈ item.children,
      fields.Takes s.encode (fun ds => s.Everywhere Narrow ∧ Fields s ds)) :
    (readTagged fields 102).Takes item.encode (fun d => item.Everywhere Narrow ∧
      ∃ m, ∃ i : Head m, ∃ s ds, item.items? = some [.nat i, s] ∧ Fields s ds ∧
        d = .constr (UInt64.ofNat m) ds) := by
  cases item with
  | @array n h items =>
    obtain rfl : n = 2 := not_not.mp announced
    obtain _ | ⟨number, _ | ⟨s, _ | _⟩⟩ := items
    have opening : Reader.arrayHeader.Takes (h.encode 4) (· = some (UInt64.ofNat 2)) :=
      Reader.takes_containerHeader h (by decide)
    rw [Tree.encode, Tree.encodeAll, Tree.encodeAll, Tree.encodeAll, List.append_nil]
    cases number with
    | nat i =>
      have last := body s (by simp [Tree.children, Members.toList])
      refine (takes_numbered i opening last).congr fun d => ?_
      constructor
      · rintro ⟨narrow, m, i, _, ds, ⟨⟩, denotes, rfl⟩
        have inside := (Tree.everywhere_iff.mp narrow).2 s
        exact ⟨ds, ⟨inside (by simp [Tree.children, Members.toList]), denotes⟩, rfl⟩
      · rintro ⟨ds, ⟨inside, denotes⟩, rfl⟩
        refine ⟨.mk trivial fun c mem => ?_, _, i, s, ds, rfl, denotes, rfl⟩
        obtain rfl | rfl := by simpa [Tree.children, Members.toList] using mem
        · exact .leaf trivial rfl
        · exact inside
    | _ =>
      refine (refuses_numbered opening (by simp [Tree.major]) _).takes fun d => ?_
      simp [Tree.items?, Members.toList]
  | stream => exact absurd trivial announced
  | _ =>
    refine ((Reader.refuses_containerHeader_encode ?_).bind _).takes ?_
    · simp [Tree.major]
    · simp [Tree.items?]

theorem takes_own (own : OwnTag k c)
    (fields_item : fields.Takes item.encode (fun ds => item.Everywhere Narrow ∧ Fields item ds)) :
    (fields.map (constr c)).Takes item.encode
      (fun d => (Tree.tag h item).Everywhere Narrow ∧ Denotes (.tag h item) d) := by
  have range := exists_ownTag_iff.mp ⟨c, own⟩
  refine (fields_item.map (constr c)).congr fun d => ?_
  rw [narrow_tag_iff, denotes_tag_iff]
  constructor
  · rintro ⟨⟨_, inside⟩, ⟨rfl, _⟩ | ⟨rfl, _⟩ | ⟨c', ds, own', denotes, rfl⟩ | ⟨rfl, _⟩⟩
    · omega
    · omega
    · obtain rfl := own.unique own'
      exact ⟨ds, ⟨inside, denotes⟩, rfl⟩
    · omega
  · rintro ⟨ds, ⟨inside, denotes⟩, rfl⟩
    exact ⟨⟨fun _ => by omega, inside⟩, .inr (.inr (.inl ⟨c, ds, own, denotes, rfl⟩))⟩

theorem takes_readTagged (paired : k = 102 → ¬ Loose item)
    (fields_item : fields.Takes item.encode (fun ds => item.Everywhere Narrow ∧ Fields item ds))
    (fields_children : ∀ s ∈ item.children,
      fields.Takes s.encode (fun ds => s.Everywhere Narrow ∧ Fields s ds)) :
    (readTagged fields (UInt64.ofNat k)).Takes item.encode
      (fun d => (Tree.tag h item).Everywhere Narrow ∧ Denotes (.tag h item) d) := by
  have value : (UInt64.ofNat k).toNat = k := UInt64.toNat_ofNat_of_lt' h.lt_size
  by_cases own : ∃ c, OwnTag k c
  · obtain ⟨c, own⟩ := own
    rw [readTagged_own (value.symm ▸ own)]
    exact takes_own own fields_item
  rw [not_exists] at own
  by_cases general : k = 102
  · subst general
    refine (takes_pair (paired rfl) fields_children).congr fun d => ?_
    simp [narrow_tag_iff, denotes_tag_iff, own]
  by_cases positive : k = 2
  · subst positive
    refine takes_magnitude (fun m => m) (.inl rfl) fun d => ?_
    simp [denotes_tag_iff, own]
  by_cases negative : k = 3
  · subst negative
    refine takes_magnitude (fun m => -1 - (m : Int)) (.inr rfl) fun d => ?_
    simp [denotes_tag_iff, own]
  · rw [readTagged_other (by rwa [value]) (by rwa [value]) (by rwa [value]) (by rwa [value])]
    refine (Reader.refuses_fail _ _).takes fun d => ?_
    simp [denotes_tag_iff, own, general, positive, negative]

end Tags

def readMajor (inner : Reader PlutusData) (m : Nat) : Reader PlutusData :=
  if m = 6 then Reader.tag.bind (readTagged (Reader.arrayOf inner))
  else if m = 5 then (Reader.mapOf inner inner).map map
  else if m = 4 then (Reader.arrayOf inner).map list
  else if m = 2 then Reader.chunkedBytes.map bytes
  else readInt

theorem takes_readWithin_cons {depth m : Nat} {b : UInt8} {bs : Bytes} {P : PlutusData → Prop}
    (major : Reader.major b = m) (h : (readMajor (readWithin depth) m).Takes (b :: bs) P) :
    (readWithin (depth + 1)).Takes (b :: bs) P := by
  subst major
  exact Reader.takes_peek h

theorem takes_readWithin_succ {depth : Nat} {t : Tree} {P : PlutusData → Prop}
    (h : (readMajor (readWithin depth) t.major).Takes t.encode P) :
    (readWithin (depth + 1)).Takes t.encode P := by
  obtain ⟨b, bs, eq, major, _⟩ := t.encode_eq_cons
  rw [eq] at h
  rw [eq]
  exact takes_readWithin_cons major h

theorem takes_readWithin_tag {depth t : Nat} (h : Head t) {bs : Bytes} {P : PlutusData → Prop}
    (next : (readTagged (Reader.arrayOf (readWithin depth)) (UInt64.ofNat t)).Takes bs P) :
    (readWithin (depth + 1)).Takes (h.encode 6 ++ bs) P := by
  have tagged : (readMajor (readWithin depth) 6).Takes (h.encode 6 ++ bs) P :=
    (Reader.takes_header h (by decide)).then next
  exact takes_readWithin_cons (Reader.major_head h (by decide)) tagged

theorem takes_fields {inner : Reader PlutusData} {t : Tree}
    (each : ∀ c ∈ t.children,
      inner.Takes c.encode (fun d => c.Everywhere Narrow ∧ Denotes c d)) :
    (Reader.arrayOf inner).Takes t.encode (fun ds => t.Everywhere Narrow ∧ Fields t ds) := by
  refine (Reader.takes_arrayOf each).congr fun ds => ?_
  constructor
  · rintro ⟨narrow, ts, items, each⟩
    refine ⟨ts, items, (List.forall₂_and_left _ _).mpr ⟨fun c mem => ?_, each⟩⟩
    exact (Tree.everywhere_iff.mp narrow).2 c (Tree.children_of_items? items ▸ mem)
  · rintro ⟨ts, items, both⟩
    obtain ⟨narrow, each⟩ := (List.forall₂_and_left _ _).mp both
    refine ⟨.mk (narrow_of_untagged ?_) (Tree.children_of_items? items ▸ narrow), ts, items, each⟩
    simp [Tree.major_of_items? items]

theorem takes_entries {inner : Reader PlutusData} {t : Tree}
    (each : ∀ c ∈ t.children,
      inner.Takes c.encode (fun d => c.Everywhere Narrow ∧ Denotes c d)) :
    (Reader.mapOf inner inner).Takes t.encode
      (fun ps => t.Everywhere Narrow ∧ Mapping t ps) := by
  have split : (fun (e : Tree × Tree) (p : PlutusData × PlutusData) =>
      (e.1.Everywhere Narrow ∧ Denotes e.1 p.1) ∧ e.2.Everywhere Narrow ∧ Denotes e.2 p.2) =
      fun e p => (e.1.Everywhere Narrow ∧ e.2.Everywhere Narrow) ∧ DenotesEntry e p := by
    funext e p
    rw [denotesEntry_iff, and_and_and_comm]
  refine (Reader.takes_mapOf each each).congr fun ps => ?_
  rw [split]
  constructor
  · rintro ⟨narrow, es, entries, each⟩
    have parts := (Tree.forall_children_of_entries? entries).mp (Tree.everywhere_iff.mp narrow).2
    exact ⟨es, entries, (List.forall₂_and_left _ _).mpr ⟨parts, each⟩⟩
  · rintro ⟨es, entries, both⟩
    obtain ⟨narrow, each⟩ := (List.forall₂_and_left _ _).mp both
    refine ⟨.mk (narrow_of_untagged ?_) ?_, es, entries, each⟩
    · simp [Tree.major_of_entries? entries]
    · exact (Tree.forall_children_of_entries? entries).mpr narrow

theorem refuses_readInt {t : Tree} (wide : 2 ≤ t.major) : readInt.Refuses t.encode := by
  obtain ⟨b, bs, eq, major, _⟩ := t.encode_eq_cons
  rw [eq]
  exact (Reader.refuses_int (major ▸ wide) bs).bind _

theorem takes_readWithin {depth : Nat} {t : Tree} (enough : t.encode.length ≤ depth)
    (paired : t.Everywhere Paired) :
    (readWithin depth).Takes t.encode (fun d => t.Everywhere Narrow ∧ Denotes t d) := by
  -- On the depth and not on the tree: behind a tag, what is read by `readWithin depth` stands two
  -- or three levels down.
  induction depth generalizing t with
  | zero =>
    obtain ⟨b, bs, eq, _⟩ := t.encode_eq_cons
    simp [eq] at enough
  | succ depth ih =>
    have child {s : Tree} (enough : s.encode.length ≤ depth + 1) (paired : s.Everywhere Paired) :
        ∀ c ∈ s.children,
          (readWithin depth).Takes c.encode (fun d => c.Everywhere Narrow ∧ Denotes c d) := by
      intro c mem
      have shorter := Nat.lt_of_lt_of_le (Tree.length_encode_lt mem) enough
      exact ih (Nat.le_of_lt_succ shorter) ((Tree.everywhere_iff.mp paired).2 c mem)
    cases t with
    | nat h =>
      apply takes_readWithin_succ
      refine (takes_readInt (Reader.takes_nat_int h)).congr fun d => ?_
      rw [denotes_nat_iff, and_iff_right (.leaf trivial rfl)]
    | neg h =>
      apply takes_readWithin_succ
      refine (takes_readInt (Reader.takes_neg_int h)).congr fun d => ?_
      rw [denotes_neg_iff, and_iff_right (.leaf trivial rfl)]
    | bytes | chunks =>
      apply takes_readWithin_succ
      refine ((Reader.takes_chunkedBytes _).map bytes).congr fun d => ?_
      rw [denotes_iff (by simp [Tree.major]) (by simp [Tree.major]),
        and_iff_right (.leaf trivial rfl)]
      simp [Fields, Mapping, Tree.items?, Tree.entries?]
    | array | stream =>
      apply takes_readWithin_succ
      refine ((takes_fields (child enough paired)).map list).congr fun d => ?_
      rw [denotes_iff (by simp [Tree.major]) (by simp [Tree.major])]
      simp [Mapping, Tree.content?, Tree.entries?, and_assoc]
    | map | openMap =>
      apply takes_readWithin_succ
      refine ((takes_entries (child enough paired)).map map).congr fun d => ?_
      rw [denotes_iff (by simp [Tree.major]) (by simp [Tree.major])]
      simp [Fields, Tree.content?, Tree.items?, and_assoc]
    | tag h item =>
      have shorter : item.encode.length ≤ depth + 1 :=
        Nat.le_of_lt (Nat.lt_of_lt_of_le (Tree.length_encode_lt List.mem_cons_self) enough)
      obtain ⟨here, inside⟩ := Tree.everywhere_iff.mp paired
      have below := inside item List.mem_cons_self
      refine takes_readWithin_tag h (takes_readTagged here ?_ fun s mem => ?_)
      · exact takes_fields (child shorter below)
      · have deeper := Nat.le_of_lt (Nat.lt_of_lt_of_le (Tree.length_encode_lt mem) shorter)
        exact takes_fields (child deeper ((Tree.everywhere_iff.mp below).2 s mem))
    | text | texts | simple =>
      apply takes_readWithin_succ
      refine (refuses_readInt (by simp [Tree.major])).takes fun d => ?_
      rw [denotes_iff (by simp [Tree.major]) (by simp [Tree.major])]
      simp [Fields, Mapping, Tree.content?, Tree.items?, Tree.entries?]

theorem takes_read {t : Tree} (paired : t.Everywhere Paired) :
    read.Takes t.encode (fun d => t.Everywhere Narrow ∧ Denotes t d) := by
  intro rest
  have enough : t.encode.length ≤ (t.encode ++ rest).length + 1 := by
    rw [List.length_append]
    omega
  exact takes_readWithin enough paired rest

/-- Where pairs are announced as pairs, reading and the grammar agree on every spelling, and what
follows the item stays where it is. -/
theorem decode_eq_ok_iff_denotes {t : Tree} (paired : t.Everywhere Paired) (rest : Bytes)
    (d : PlutusData) :
    (decode (t.encode ++ rest) = .ok d ↔ Denotes t d ∧ t.Everywhere Narrow) ∧
      ∀ rest', read (t.encode ++ rest) = .ok (d, rest') → rest' = rest := by
  have taken := takes_read paired rest d
  refine ⟨?_, fun rest' h => ((taken rest').mp h).2⟩
  rw [decode, Reader.run, Except.map_eq_ok, and_comm]
  constructor
  · rintro ⟨⟨_, rest'⟩, h, rfl⟩
    exact ((taken rest').mp h).1
  · intro h
    exact ⟨(d, rest), (taken rest).mpr ⟨h, rfl⟩, rfl⟩

theorem read_opened {k : Nat} {h : Head 102} {i : Head k} {fields : Tree} {ds : List PlutusData}
    (paired : fields.Everywhere Paired) (narrow : fields.Everywhere Narrow)
    (denotes : Fields fields ds) (rest : Bytes) :
    read ((Tree.tag h (.stream (.cons (.nat i) (.cons fields .nil)))).encode ++ rest) =
      .ok (constr (UInt64.ofNat k) ds, breakByte :: rest) := by
  have bytes : (Tree.tag h (.stream (.cons (.nat i) (.cons fields .nil)))).encode ++ rest =
      h.encode 6 ++ ([initialByte 4 31] ++ (i.encode 0 ++ fields.encode)) ++ breakByte :: rest := by
    simp only [Tree.encode, Tree.encodeAll, List.append_nil, List.append_assoc,
      List.cons_append, List.nil_append]
  rw [bytes, read]
  generalize enough : (h.encode 6 ++ ([initialByte 4 31] ++ (i.encode 0 ++ fields.encode)) ++
    breakByte :: rest).length = depth
  simp only [List.length_append] at enough
  have inner : ∀ c ∈ fields.children,
      (readWithin depth).Takes c.encode (fun d => c.Everywhere Narrow ∧ Denotes c d) := by
    intro c mem
    have shorter := Tree.length_encode_lt mem
    exact takes_readWithin (by omega) ((Tree.everywhere_iff.mp paired).2 c mem)
  have taken := takes_readWithin_tag h
    (takes_numbered i (Reader.takes_openHeader (by decide)) (takes_fields inner))
  exact (taken _ _ _).mpr ⟨⟨ds, ⟨narrow, denotes⟩, rfl⟩, rfl⟩

namespace Sample

def number (n : Nat) (w : Width) (fits : n < w.limit) : Tree := .nat ⟨w, fits⟩

def items (pair : Tree) : Tree :=
  .stream (.cons (.tag (t := 102) ⟨.one, by decide⟩ pair)
    (.cons (number 5 .eight (by decide))
    (.cons (.chunks [.least [0xde] (by decide), .least [0xad] (by decide)])
    (.cons (.tag (t := 3) ⟨.inline, by decide⟩ (.bytes (.least [1, 0] (by decide))))
    (.cons (.openMap (.cons (.stream .nil, number 7 .inline (by decide)) .nil)) .nil)))))

def contents : PlutusData :=
  list [constr 0 [], int ⟨5, by decide, by decide⟩, bytes [0xde, 0xad],
    int ⟨-257, by decide, by decide⟩, map [(list [], int ⟨7, by decide, by decide⟩)]]

def announced : Tree :=
  .array (n := 2) ⟨.inline, by decide⟩
    (.cons (number 0 .inline (by decide)) (.cons (.stream .nil) .nil))

def opened : Tree :=
  .stream (.cons (number 0 .inline (by decide)) (.cons (.stream .nil) .nil))

theorem paired_announced : (items announced).Everywhere Paired := by
  have pair : announced.Everywhere Paired := by
    refine .mk trivial ?_
    simp only [announced, Tree.children, Members.toList, List.forall_mem_cons]
    exact ⟨.leaf trivial rfl, .leaf trivial rfl, by simp⟩
  refine .mk trivial ?_
  simp only [items, Tree.children, Members.toList, List.forall_mem_cons]
  refine ⟨.mk (fun _ loose => loose rfl) ?_, .leaf trivial rfl, .leaf trivial rfl,
    .mk (by simp [Paired]) ?_, .mk trivial ?_, by simp⟩
  · simpa [Tree.children] using pair
  · simpa [Tree.children] using Tree.Everywhere.leaf trivial rfl
  · simpa [Tree.children, Members.toList] using
      ⟨Tree.Everywhere.leaf trivial rfl, Tree.Everywhere.leaf trivial rfl⟩

theorem denotes_opened : Denotes (items opened) contents := by
  have entry := DenotesEntry.mk (e := (.stream .nil, number 7 .inline (by decide)))
    (p := (list [], int ⟨7, by decide, by decide⟩)) (.list rfl .nil) (.nat rfl)
  refine .list rfl (.cons ?_ (.cons ?_ (.cons ?_ (.cons ?_ (.cons ?_ .nil)))))
  · exact .pair rfl rfl rfl rfl .nil
  · exact .nat rfl
  · exact .bytes rfl
  · exact .bigNeg rfl rfl rfl
  · exact .map rfl (.cons entry .nil)

end Sample

theorem decode_announced_not_opened :
    (Sample.items Sample.announced).Everywhere Paired ∧
      decode (Sample.items Sample.announced).encode = .ok Sample.contents ∧
      Denotes (Sample.items Sample.announced) Sample.contents ∧
      Denotes (Sample.items Sample.opened) Sample.contents ∧
      decode (Sample.items Sample.opened).encode = .ok (list [constr 0 []]) := by
  have read : decode ((Sample.items Sample.announced).encode ++ []) = .ok Sample.contents := rfl
  have agrees := decode_eq_ok_iff_denotes Sample.paired_announced [] Sample.contents
  exact ⟨Sample.paired_announced, rfl, (agrees.1.mp read).1, Sample.denotes_opened, rfl⟩

end ConwayTx.PlutusData
