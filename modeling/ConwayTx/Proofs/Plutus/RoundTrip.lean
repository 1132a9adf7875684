import ConwayTx.Proofs.Cbor.ReadBack
import ConwayTx.Proofs.Cbor.Writing
import ConwayTx.Proofs.Plutus.Reading

namespace ConwayTx.PlutusData

open Cbor

/-- Every map has fewer entries than a word can count, as any map in memory has. -/
inductive MapsFit : PlutusData → Prop
  | constr {tag : UInt64} {fields : List PlutusData} (each : ∀ d ∈ fields, MapsFit d) :
      MapsFit (.constr tag fields)
  | map {entries : List (PlutusData × PlutusData)} (fits : entries.length < UInt64.size)
      (keys : ∀ e ∈ entries, MapsFit e.1) (values : ∀ e ∈ entries, MapsFit e.2) :
      MapsFit (.map entries)
  | list {items : List PlutusData} (each : ∀ d ∈ items, MapsFit d) : MapsFit (.list items)
  | int (n : Int128) : MapsFit (.int n)
  | bytes (b : Bytes) : MapsFit (.bytes b)

structure Spells (t : Tree) (d : PlutusData) : Prop where
  encode_eq : t.encode = d.encode
  paired : t.Everywhere Paired
  narrow : t.Everywhere Narrow
  denotes : Denotes t d

namespace Spells

theorem leaf {t : Tree} {d : PlutusData} (encode_eq : t.encode = d.encode) (paired : Paired t)
    (narrow : Narrow t) (childless : t.children = []) (denotes : Denotes t d) : Spells t d :=
  ⟨encode_eq, .leaf paired childless, .leaf narrow childless, denotes⟩

theorem content {t : Tree} {b : Bytes} (h : Spells t (.bytes b)) : t.content? = some b := by
  cases h.denotes with
  | bytes content => exact content

theorem fields {t : Tree} {ds : List PlutusData} (h : Spells t (.list ds)) : Fields t ds := by
  cases h.denotes with
  | list items each => exact ⟨_, items, each⟩

end Spells

theorem exists_bytes (b : Bytes) : ∃ t, Spells t (.bytes b) := by
  by_cases one : b.length ≤ 64
  · have fits : b.length < UInt64.size := Nat.lt_of_le_of_lt one (by decide)
    refine ⟨.bytes (.least b fits), .leaf ?_ trivial trivial rfl (.bytes rfl)⟩
    rw [Tree.encode, Chunk.encode_least, encode, toItem, boundedBytes, if_pos one, Item.encode]
  · have short : ∀ p ∈ b.chunks 63, p.length < UInt64.size := fun p mem =>
      Nat.lt_of_le_of_lt (Bytes.length_le_of_mem_chunks mem) (by decide)
    obtain ⟨cs, written, content⟩ := exists_chunks short
    rw [Bytes.flatten_chunks] at content
    refine ⟨.chunks cs, .leaf ?_ trivial trivial rfl (.bytes (congrArg some content))⟩
    rw [Tree.encode, encodePieces, written, encode, toItem, boundedBytes, if_neg one, Item.encode]

theorem exists_plain {n : Int128} (plain : n.isPlain = true) : ∃ t, Spells t (.int n) := by
  have item : (int n).encode = (Item.ofInt n.toInt).encode := by
    rw [encode, toItem, intItem, if_pos plain]
  simp only [Int128.isPlain, Bool.and_eq_true, decide_eq_true_eq] at plain
  match value : n.toInt with
  | .ofNat m =>
    rw [value] at plain item
    have fits : m < UInt64.size := Int.ofNat_lt.mp plain.2
    refine ⟨.nat (Head.least m fits), .leaf ?_ trivial trivial rfl (.nat value)⟩
    rw [item, Tree.encode, Head.encode_least, Item.ofInt, Item.encode,
      UInt64.toNat_ofNat_of_lt' fits]
  | .negSucc m =>
    rw [value] at plain item
    have fits : m < UInt64.size := by omega
    refine ⟨.neg (Head.least m fits), .leaf ?_ trivial trivial rfl (.neg (by omega))⟩
    rw [item, Tree.encode, Head.encode_least, Item.ofInt, Item.encode,
      UInt64.toNat_ofNat_of_lt' fits]

def tagged (u : UInt64) (t : Tree) : Tree := .tag (Head.least u.toNat u.toNat_lt_size) t

theorem encode_tagged (u : UInt64) (t : Tree) :
    (tagged u t).encode = head 6 u.toNat ++ t.encode := by
  rw [tagged, Tree.encode, Head.encode_least]

theorem paired_tagged {u : UInt64} {t : Tree} (announced : u.toNat = 102 → ¬ Loose t)
    (inside : t.Everywhere Paired) : (tagged u t).Everywhere Paired :=
  .mk announced (by simpa [tagged, Tree.children] using inside)

theorem Spells.magnitude {u : UInt64} {t : Tree} {m : Nat} {n : Int128}
    (h : Spells t (.bytes (Bytes.ofNatMinimal m))) (sign : u.toNat = 2 ∨ u.toNat = 3)
    (bound : m < Bytes.size 16)
    (item : (int n).encode = (Item.tag u (boundedBytes (Bytes.ofNatMinimal m))).encode)
    (denotes : Denotes (tagged u t) (.int n)) : Spells (tagged u t) (.int n) := by
  refine ⟨?_, paired_tagged (fun general => by omega) h.paired,
    narrow_tag_iff.mpr ⟨fun _ b content => ?_, h.narrow⟩, denotes⟩
  · rw [encode_tagged, h.encode_eq, item, Item.encode, encode, toItem]
  · obtain rfl := Option.some.inj (h.content.symm.trans content)
    exact Bytes.length_ofNatMinimal_le bound

theorem exists_int (n : Int128) : ∃ t, Spells t (.int n) := by
  by_cases plain : n.isPlain = true
  · exact exists_plain plain
  have upper := n.upper
  have lower := n.lower
  have bound {m : Nat} (h : m ≤ Int128.largest) : m < Bytes.size 16 :=
    Nat.lt_of_le_of_lt h (by decide)
  have item : (int n).encode = (intItem n).encode := rfl
  rw [intItem, if_neg plain] at item
  match value : n.toInt with
  | .ofNat m =>
    rw [value] at upper item
    obtain ⟨t, h⟩ := exists_bytes (Bytes.ofNatMinimal m)
    refine ⟨tagged 2 t, Spells.magnitude h (.inl rfl) (bound (Int.ofNat_le.mp upper)) item ?_⟩
    exact .bigNat rfl h.content (by rw [Bytes.toNat_ofNatMinimal, value]; rfl)
  | .negSucc m =>
    rw [value] at lower item
    obtain ⟨t, h⟩ := exists_bytes (Bytes.ofNatMinimal m)
    refine ⟨tagged 3 t, Spells.magnitude h (.inr rfl) (bound (by omega)) item ?_⟩
    exact .bigNeg rfl h.content (by rw [Bytes.toNat_ofNatMinimal]; omega)

theorem flatMap_encode_eq {ts : List Tree} {ds : List PlutusData}
    (all : List.Forall₂ Spells ts ds) :
    ts.flatMap Tree.encode = Item.encodeAll (itemsOf ds) := by
  induction all with
  | nil => rfl
  | cons first _ ih =>
    rw [List.flatMap_cons, itemsOf, Item.encodeAll, ih, first.encode_eq, encode]

theorem Spells.list {t : Tree} {ts : List Tree} {ds : List PlutusData}
    (encode_eq : t.encode = (PlutusData.list ds).encode) (items : t.items? = some ts)
    (all : List.Forall₂ Spells ts ds) : Spells t (.list ds) := by
  have untagged : t.major ≠ 6 := by simp [Tree.major_of_items? items]
  have paired := forall_left all (fun _ _ h => h.paired)
  have narrow := forall_left all (fun _ _ h => h.narrow)
  rw [← Tree.children_of_items? items] at paired narrow
  exact ⟨encode_eq, .mk (paired_of_untagged untagged) paired,
    .mk (narrow_of_untagged untagged) narrow, .list items (all.imp fun _ _ h => h.denotes)⟩

theorem exists_list {ds : List PlutusData} (each : ∀ d ∈ ds, ∃ t, Spells t d) :
    ∃ t, Spells t (.list ds) := by
  obtain ⟨ts, all⟩ := exists_forall₂ each
  cases ds with
  | nil =>
    obtain rfl := List.forall₂_nil_right_iff.mp all
    exact ⟨.array (Head.least 0 (by decide)) .nil, .list rfl rfl all⟩
  | cons d ds =>
    refine ⟨.stream (.ofList ts), .list ?_ (congrArg some (Members.toList_ofList ts)) all⟩
    rw [Tree.encode, Tree.encodeAll_eq, Members.toList_ofList, flatMap_encode_eq all]
    rfl

theorem flatMap_encode_entries_eq {es : List (Tree × Tree)} {ps : List (PlutusData × PlutusData)}
    (all : List.Forall₂ (fun e p => Spells e.1 p.1 ∧ Spells e.2 p.2) es ps) :
    es.flatMap (fun e => e.1.encode ++ e.2.encode) = Item.encodeEntries (entriesOf ps) := by
  induction all with
  | nil => rfl
  | cons first _ ih =>
    rw [List.flatMap_cons, entriesOf, Item.encodeEntries, ih, first.1.encode_eq,
      first.2.encode_eq, encode, encode]

theorem length_entriesOf (ps : List (PlutusData × PlutusData)) :
    (entriesOf ps).length = ps.length := by
  induction ps with
  | nil => rfl
  | cons p ps ih => rw [entriesOf, List.length_cons, ih, List.length_cons]

theorem Spells.map {t : Tree} {es : List (Tree × Tree)} {ps : List (PlutusData × PlutusData)}
    (encode_eq : t.encode = (PlutusData.map ps).encode) (entries : t.entries? = some es)
    (all : List.Forall₂ (fun e p => Spells e.1 p.1 ∧ Spells e.2 p.2) es ps) :
    Spells t (.map ps) := by
  have untagged : t.major ≠ 6 := by simp [Tree.major_of_entries? entries]
  have denotes := all.imp fun _ _ h => DenotesEntry.mk h.1.denotes h.2.denotes
  have paired := forall_left all (fun _ _ h => And.intro h.1.paired h.2.paired)
  have narrow := forall_left all (fun _ _ h => And.intro h.1.narrow h.2.narrow)
  rw [← Tree.forall_children_of_entries? entries] at paired narrow
  exact ⟨encode_eq, .mk (paired_of_untagged untagged) paired,
    .mk (narrow_of_untagged untagged) narrow, .map entries denotes⟩

theorem exists_map {ps : List (PlutusData × PlutusData)} (fits : ps.length < UInt64.size)
    (keys : ∀ p ∈ ps, ∃ t, Spells t p.1) (values : ∀ p ∈ ps, ∃ t, Spells t p.2) :
    ∃ t, Spells t (.map ps) := by
  have each : ∀ p ∈ ps, ∃ e : Tree × Tree, Spells e.1 p.1 ∧ Spells e.2 p.2 := by
    intro p mem
    obtain ⟨k, key⟩ := keys p mem
    obtain ⟨v, value⟩ := values p mem
    exact ⟨(k, v), key, value⟩
  obtain ⟨es, all⟩ := exists_forall₂ each
  have count : es.length = ps.length := all.length_eq
  refine ⟨.map (Head.least es.length (count ▸ fits)) (.ofList es),
    .map ?_ (congrArg some (Members.toList_ofList es)) all⟩
  rw [Tree.encode, Tree.encodeEntries_eq, Members.toList_ofList, Head.encode_least,
    flatMap_encode_entries_eq all, count, encode, toItem, Item.encode]

theorem constrItem_own {c : UInt64} (own : c ≤ 127) (fields : List Item) :
    ∃ u : UInt64, OwnTag u.toNat c ∧ constrItem c fields = .tag u (listItem fields) := by
  have high := UInt64.le_iff_toNat_le.mp own
  rw [constrItem]
  by_cases small : c ≤ 6
  · rw [if_pos small]
    rw [UInt64.le_iff_toNat_le] at small
    refine ⟨121 + c, .inl ⟨small, ?_⟩, rfl⟩
    simp only [UInt64.toNat_add, UInt64.reduceToNat] at high ⊢
    omega
  · rw [if_neg small, if_pos own]
    rw [UInt64.le_iff_toNat_le] at small
    simp only [UInt64.reduceToNat] at high small
    have sum : (1280 + c).toNat = 1280 + c.toNat := by
      simp only [UInt64.toNat_add, UInt64.reduceToNat]
      omega
    have enough : 7 ≤ 1280 + c := by
      rw [UInt64.le_iff_toNat_le, sum]
      simp only [UInt64.reduceToNat]
      omega
    refine ⟨1280 + c - 7, .inr ⟨by omega, high, ?_⟩, rfl⟩
    rw [UInt64.toNat_sub_of_le _ _ enough, sum]
    simp only [UInt64.reduceToNat]
    omega

theorem Spells.constr {u c : UInt64} {t : Tree} {ds : List PlutusData} (h : Spells t (.list ds))
    (own : OwnTag u.toNat c)
    (item : constrItem c (itemsOf ds) = .tag u (listItem (itemsOf ds))) :
    Spells (tagged u t) (.constr c ds) := by
  obtain ⟨ts, items, each⟩ := h.fields
  have range := exists_ownTag_iff.mp ⟨c, own⟩
  refine ⟨?_, paired_tagged (fun general => by omega) h.paired,
    narrow_tag_iff.mpr ⟨fun magnitude => by omega, h.narrow⟩, .constr own items each⟩
  rw [encode_tagged, h.encode_eq, encode, toItem, encode, toItem, item, Item.encode]

def numbered (c : UInt64) (fields : Tree) : Tree :=
  .array (Head.least 2 (by decide))
    (.cons (.nat (Head.least c.toNat c.toNat_lt_size)) (.cons fields .nil))

theorem encode_numbered (c : UInt64) (fields : Tree) :
    (numbered c fields).encode = head 4 2 ++ (head 0 c.toNat ++ fields.encode) := by
  simp only [numbered, Tree.encode, Tree.encodeAll, Head.encode_least, List.append_nil]

theorem everywhere_numbered {P : Tree → Prop} (untagged : ∀ {t : Tree}, t.major ≠ 6 → P t)
    (c : UInt64) {fields : Tree} (h : fields.Everywhere P) : (numbered c fields).Everywhere P := by
  refine .mk (untagged (by simp [numbered, Tree.major])) fun t mem => ?_
  obtain rfl | rfl := by simpa [numbered, Tree.children, Members.toList] using mem
  · exact .leaf (untagged (by simp [Tree.major])) rfl
  · exact h

theorem Spells.numbered {c : UInt64} {t : Tree} {ds : List PlutusData} (h : Spells t (.list ds))
    (other : ¬ c ≤ 127) : Spells (tagged 102 (numbered c t)) (.constr c ds) := by
  obtain ⟨ts, items, each⟩ := h.fields
  have small : ¬ c ≤ 6 := fun small => other (UInt64.le_trans small (by decide))
  have paired := everywhere_numbered paired_of_untagged c h.paired
  have narrow := everywhere_numbered narrow_of_untagged c h.narrow
  refine ⟨?_, paired_tagged (fun _ loose => loose rfl) paired,
    narrow_tag_iff.mpr ⟨fun magnitude => by simp at magnitude, narrow⟩,
    .pair rfl rfl rfl items each⟩
  rw [encode_tagged, encode_numbered, h.encode_eq, encode, toItem, encode, toItem, constrItem,
    if_neg small, if_neg other]
  simp only [Item.encode, Item.encodeAll, List.append_nil]

theorem exists_constr (c : UInt64) {ds : List PlutusData} (fields : ∃ t, Spells t (.list ds)) :
    ∃ t, Spells t (.constr c ds) := by
  obtain ⟨t, h⟩ := fields
  by_cases own : c ≤ 127
  · obtain ⟨u, own, item⟩ := constrItem_own own (itemsOf ds)
    exact ⟨tagged u t, h.constr own item⟩
  · exact ⟨tagged 102 (numbered c t), h.numbered own⟩

theorem MapsFit.exists_spelling {d : PlutusData} (fits : d.MapsFit) : ∃ t, Spells t d := by
  induction fits with
  | constr _ each => exact exists_constr _ (exists_list each)
  | map fits _ _ keys values => exact exists_map fits keys values
  | list _ each => exact exists_list each
  | int n => exact exists_int n
  | bytes b => exact exists_bytes b

theorem length_le_listItem {items : List Item} {item : Item} (mem : item ∈ items) :
    item.encode.length ≤ (listItem items).encode.length := by
  rw [listItem, if_neg (by simpa using List.ne_nil_of_mem mem)]
  exact Item.length_encode_le mem

theorem length_le_constrItem {c : UInt64} {fields : List Item} {item : Item}
    (mem : item ∈ fields) : item.encode.length ≤ (constrItem c fields).encode.length := by
  have inside := length_le_listItem mem
  have tagged (u : UInt64) (i : Item) : i.encode.length ≤ (Item.tag u i).encode.length :=
    Item.length_encode_le List.mem_cons_self
  have second (i j : Item) : j.encode.length ≤ (Item.array 2 [i, j]).encode.length :=
    Item.length_encode_le (List.mem_cons_of_mem i List.mem_cons_self)
  rw [constrItem]
  repeat' split
  · exact inside.trans (tagged _ _)
  · exact inside.trans (tagged _ _)
  · exact inside.trans ((second _ _).trans (tagged _ _))

mutual

theorem mapsFit_of_fits : (d : PlutusData) → d.encode.length < UInt64.size → d.MapsFit
  | .constr c fields, fits =>
    .constr (mapsFit_of_items fields fun _ mem => (length_le_constrItem mem).trans_lt fits)
  | .map entries, fits => by
    have inside := mapsFit_of_entries entries fun _ mem => (Item.length_encode_le mem).trans_lt fits
    have count := Item.count_entries_le entries.length (entriesOf entries)
    rw [length_entriesOf] at count
    exact .map (count.trans_lt fits) (fun e mem => (inside e mem).1) (fun e mem => (inside e mem).2)
  | .list items, fits =>
    .list (mapsFit_of_items items fun _ mem => (length_le_listItem mem).trans_lt fits)
  | .int n, _ => .int n
  | .bytes b, _ => .bytes b

theorem mapsFit_of_items : (ds : List PlutusData) →
    (∀ item ∈ itemsOf ds, item.encode.length < UInt64.size) → ∀ d ∈ ds, d.MapsFit
  | [], _ => fun _ mem => nomatch mem
  | d :: rest, fits => by
    rw [itemsOf, List.forall_mem_cons] at fits
    exact List.forall_mem_cons.mpr ⟨mapsFit_of_fits d fits.1, mapsFit_of_items rest fits.2⟩

theorem mapsFit_of_entries : (ps : List (PlutusData × PlutusData)) →
    (∀ item ∈ (Item.map ps.length (entriesOf ps)).children, item.encode.length < UInt64.size) →
    ∀ p ∈ ps, p.1.MapsFit ∧ p.2.MapsFit
  | [], _ => fun _ mem => nomatch mem
  | (k, v) :: rest, fits => by
    rw [entriesOf, Item.children, List.flatMap_cons, List.forall_mem_append] at fits
    obtain ⟨both, later⟩ := fits
    have key := mapsFit_of_fits k (both _ List.mem_cons_self)
    have value := mapsFit_of_fits v (both _ (List.mem_cons_of_mem _ List.mem_cons_self))
    exact List.forall_mem_cons.mpr ⟨⟨key, value⟩, mapsFit_of_entries rest later⟩

end

theorem read_encode {d : PlutusData} (fits : d.MapsFit) (rest : Bytes) :
    read (d.encode ++ rest) = .ok (d, rest) := by
  obtain ⟨t, h⟩ := fits.exists_spelling
  rw [← h.encode_eq]
  exact (takes_read h.paired rest d rest).mpr ⟨⟨h.narrow, h.denotes⟩, rfl⟩

theorem eq_of_append_eq {d d' : PlutusData} {rest rest' : Bytes} (fits : d.MapsFit)
    (fits' : d'.MapsFit) (same : d.encode ++ rest = d'.encode ++ rest') :
    d = d' ∧ rest = rest' :=
  (Reader.takes_of_read_append (read_encode fits)).append_inj
    (Reader.takes_of_read_append (read_encode fits')) same

/-- Data is read back as it was written, and no encoding is that of other data or begins it. -/
theorem encode_reads_back (d : PlutusData) (fits : d.MapsFit) :
    (∀ rest, read (d.encode ++ rest) = .ok (d, rest)) ∧ decode d.encode = .ok d ∧
      (∀ d', d'.MapsFit → d.encode = d'.encode → d = d') ∧
      (∀ d', d'.MapsFit → d.encode <+: d'.encode → d = d') := by
  have whole := read_encode fits []
  rw [List.append_nil] at whole
  have begins (d' : PlutusData) (fits' : d'.MapsFit) (h : d.encode <+: d'.encode) : d = d' := by
    obtain ⟨more, same⟩ := h
    rw [← List.append_nil d'.encode] at same
    exact (eq_of_append_eq fits fits' same).1
  refine ⟨read_encode fits, Except.map_eq_ok.mpr ⟨_, whole, rfl⟩, fun d' fits' same => ?_, begins⟩
  exact begins d' fits' (same ▸ List.prefix_rfl)

def Sample.datum : PlutusData :=
  constr 6 [constr 7 [list []], constr 128 [int ⟨-Int128.largest - 1, by decide, by decide⟩],
    map [(bytes (List.replicate 65 0xab), int ⟨UInt64.size, by decide, by decide⟩),
      (bytes [], list [int ⟨-UInt64.size, by decide, by decide⟩])]]

theorem Sample.datum_fits : Sample.datum.MapsFit := by
  have entries : (map [(bytes (List.replicate 65 0xab), int ⟨UInt64.size, by decide, by decide⟩),
      (bytes [], list [int ⟨-UInt64.size, by decide, by decide⟩])]).MapsFit := by
    refine .map (by decide) ?_ ?_
    · simp only [List.forall_mem_cons]
      exact ⟨.bytes _, .bytes _, by simp⟩
    · simp only [List.forall_mem_cons]
      exact ⟨.int _, .list (by simpa using .int _), by simp⟩
  refine .constr ?_
  simp only [List.forall_mem_cons]
  refine ⟨.constr ?_, .constr ?_, entries, by simp⟩
  · simpa using .list (by simp)
  · simpa using .int _

theorem datum_reads_back : Sample.datum.MapsFit ∧
    read (Sample.datum.encode ++ [0xff, 0x05]) = .ok (Sample.datum, [0xff, 0x05]) ∧
    decode Sample.datum.encode = .ok Sample.datum ∧ ¬ Sample.datum.encode <+: unit.encode := by
  obtain ⟨read, decode, _, begins⟩ := encode_reads_back Sample.datum Sample.datum_fits
  refine ⟨Sample.datum_fits, read _, decode, fun h => ?_⟩
  cases begins unit (.constr (by simp)) h

end ConwayTx.PlutusData
