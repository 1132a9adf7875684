import ConwayTx.Proofs.Cbor
import ConwayTx.Proofs.Cbor.Reading
import ConwayTx.Proofs.Except
import ConwayTx.Proofs.OrdMap

namespace ConwayTx.Cbor.Reader

variable {α β : Type} {r : Reader α} {a b : α} {bs xs ys : Bytes}

theorem Takes.read_append (h : r.Takes bs (· = a)) (rest : Bytes) :
    r (bs ++ rest) = .ok (a, rest) :=
  (h _ _ _).mpr ⟨rfl, rfl⟩

theorem Takes.run_eq (h : r.Takes bs (· = a)) : r.run bs = .ok a := by
  have whole := h.read_append []
  rw [List.append_nil] at whole
  exact Except.map_eq_ok.mpr ⟨_, whole, rfl⟩

theorem takes_of_read_append (read : ∀ rest, r (bs ++ rest) = .ok (a, rest)) :
    r.Takes bs (· = a) := by
  intro rest b rest'
  rw [read rest]
  constructor
  · rintro ⟨⟩
    exact ⟨rfl, rfl⟩
  · rintro ⟨rfl, rfl⟩
    rfl

theorem Takes.append_inj (hx : r.Takes xs (· = a)) (hy : r.Takes ys (· = b)) {rest rest' : Bytes}
    (same : xs ++ rest = ys ++ rest') : a = b ∧ rest = rest' := by
  have read := hx.read_append rest
  rw [same, hy.read_append rest'] at read
  cases read
  exact ⟨rfl, rfl⟩

theorem Takes.inj (hx : r.Takes xs (· = a)) (hy : r.Takes ys (· = b)) (same : xs = ys) : a = b :=
  (hx.append_inj hy (congrArg (· ++ []) same)).1

theorem Takes.map_eq (h : r.Takes bs (· = a)) (f : α → β) : (r.map f).Takes bs (· = f a) :=
  (h.map f).congr (by simp)

theorem Takes.check_eq {f : α → Except DecodeError β} {c : β} (h : r.Takes bs (· = a))
    (passed : f a = .ok c) : (r.check f).Takes bs (· = c) :=
  (h.check f).congr (by simp [passed, eq_comm])

variable {m n : Nat}

theorem takes_header_head (hm : m < 8) (fits : n < UInt64.size) :
    (header m).Takes (head m n) (· = UInt64.ofNat n) := by
  rw [← Head.encode_least m n fits]
  exact takes_header _ hm

theorem takes_peek_head (hm : m < 8) (fits : n < UInt64.size) {f : UInt8 → Reader β}
    {P : β → Prop} (next : ∀ b, major b = m → (f b).Takes (head m n ++ bs) P) :
    (peek.bind f).Takes (head m n ++ bs) P := by
  rw [← Head.encode_least m n fits] at next ⊢
  exact takes_peek (next _ (major_head _ hm))

theorem takes_arrayHeader_head (fits : n < UInt64.size) :
    arrayHeader.Takes (head 4 n) (· = some (UInt64.ofNat n)) := by
  rw [← Head.encode_least 4 n fits]
  exact takes_containerHeader _ (by decide)

theorem takes_nat_head (n : UInt64) : nat.Takes (head 0 n.toNat) (· = n) := by
  have taken := takes_header_head (m := 0) (by decide) n.toNat_lt_size
  rwa [UInt64.ofNat_toNat] at taken

theorem takes_natBelow {bound : Nat} {n : UInt64} (small : n.toNat < bound) :
    (natBelow bound).Takes (head 0 n.toNat) (· = n.toNat) :=
  (takes_nat_head n).check_eq (if_pos small)

theorem takes_uint8_head (n : UInt8) : uint8.Takes (head 0 n.toUInt64.toNat) (· = n) := by
  have small : n.toUInt64.toNat < UInt8.size := by simpa using n.toNat_lt_size
  simpa [uint8] using (takes_natBelow small).map_eq UInt8.ofNat

theorem takes_uint32_head (n : UInt32) : uint32.Takes (head 0 n.toUInt64.toNat) (· = n) := by
  have small : n.toUInt64.toNat < UInt32.size := by simpa using n.toNat_lt_size
  simpa [uint32] using (takes_natBelow small).map_eq UInt32.ofNat

theorem takes_encodeBytes (fits : bs.length < UInt64.size) :
    bytes.Takes (encodeBytes bs) (· = bs) := by
  rw [← Chunk.encode_least bs fits]
  exact takes_bytes _

theorem takes_hash {width : Nat} (fits : width < UInt64.size) (h : Hash width) :
    (hash width).Takes h.toItem.encode (· = h) := by
  have taken : bytes.Takes (encodeBytes h.bytes) (· = h.bytes) :=
    takes_encodeBytes (h.length_bytes.symm ▸ fits)
  exact taken.check_eq (by rw [h.ofBytes?_bytes])

theorem takes_arrayOf_items (item : α → Item) {as : List α} (fits : as.length < UInt64.size)
    (each : ∀ a ∈ as, r.Takes (item a).encode (· = a)) :
    (arrayOf r).Takes (Item.array as.length (as.map item)).encode (· = as) := by
  have taken := takes_container (m := 4) (by decide) each (Head.least _ fits) rfl
  rw [Head.encode_least] at taken
  rw [Item.encode, Item.encodeAll_eq, List.flatMap_map]
  exact taken.congr fun _ => (forall₂_eq_map.trans (by rw [List.map_id'])).symm

theorem takes_mapOf_items {key : Reader α} {value : Reader β} (kItem : α → Item)
    (vItem : β → Item) {es : List (α × β)} (fits : es.length < UInt64.size)
    (keys : ∀ e ∈ es, key.Takes (kItem e.1).encode (· = e.1))
    (values : ∀ e ∈ es, value.Takes (vItem e.2).encode (· = e.2)) :
    (mapOf key value).Takes (Item.map es.length (es.map (fun e => (kItem e.1, vItem e.2)))).encode
      (· = es) := by
  have each : ∀ e ∈ es, (key.bind (fun k => value.map (fun v => (k, v)))).Takes
      ((kItem e.1).encode ++ (vItem e.2).encode) (· = e) :=
    fun e mem => (keys e mem).then ((values e mem).map_eq _)
  have taken := takes_container (m := 5) (by decide) each (Head.least _ fits) rfl
  rw [Head.encode_least] at taken
  rw [Item.encode, Item.encodeEntries_eq, List.flatMap_map]
  exact taken.congr fun _ => (forall₂_eq_map.trans (by rw [List.map_id'])).symm

theorem takes_ofList {κ ν : Type} [Ranked κ] {key : Reader κ} {value : Reader ν}
    (kItem : κ → Item) (vItem : ν → Item) {entries : OrdMap κ ν}
    (fits : entries.size < UInt64.size)
    (keys : ∀ e ∈ entries.toList, key.Takes (kItem e.1).encode (· = e.1))
    (values : ∀ e ∈ entries.toList, value.Takes (vItem e.2).encode (· = e.2)) :
    ((mapOf key value).map OrdMap.ofList).Takes
      (Item.map entries.size (entries.toList.map (fun e => (kItem e.1, vItem e.2)))).encode
      (· = entries) := by
  have made := (takes_mapOf_items kItem vItem fits keys values).map_eq OrdMap.ofList
  rwa [OrdMap.ofList_toList] at made

end ConwayTx.Cbor.Reader
