import ConwayTx.Cbor.Item

namespace ConwayTx.Cbor

def width (n : UInt64) : Nat := (head 0 n.toNat).length

theorem width_eq (n : UInt64) : width n =
    if n.toNat < 24 then 1 else if n.toNat < UInt8.size then 2 else if n.toNat < UInt16.size then 3
    else if n.toNat < UInt32.size then 5 else 9 := by
  unfold width head
  repeat' split
  all_goals simp

theorem width_mono {a b : UInt64} (h : a ≤ b) : width a ≤ width b := by
  have h := UInt64.le_iff_toNat_le.mp h
  simp only [width_eq, UInt8.size, UInt16.size, UInt32.size]
  repeat' split
  all_goals omega

namespace Item

theorem encodeAll_eq (items : List Item) : encodeAll items = items.flatMap encode := by
  induction items with
  | nil => rfl
  | cons item rest ih => rw [encodeAll, List.flatMap_cons, ih]

theorem encodeAll_singleton (item : Item) : encodeAll [item] = item.encode := by
  rw [encodeAll, encodeAll, List.append_nil]

theorem encodeEntries_eq (entries : List (Item × Item)) :
    encodeEntries entries = entries.flatMap (fun e => encode e.1 ++ encode e.2) := by
  induction entries with
  | nil => rfl
  | cons entry rest ih => rw [encodeEntries, List.flatMap_cons, ih]

theorem encodeEntries_append (xs ys : List (Item × Item)) :
    encodeEntries (xs ++ ys) = encodeEntries xs ++ encodeEntries ys := by
  rw [encodeEntries_eq, encodeEntries_eq, encodeEntries_eq, List.flatMap_append]

theorem length_encode_le_encodeAll {item : Item} {items : List Item} (mem : item ∈ items) :
    item.encode.length ≤ (encodeAll items).length := by
  have part : item.encode.Sublist (items.flatMap encode) :=
    List.sublist_flatten_of_mem (List.mem_map_of_mem mem)
  rw [encodeAll_eq]
  exact part.length_le

theorem length_encode_le_encodeEntries {key value : Item} {entries : List (Item × Item)}
    (mem : (key, value) ∈ entries) : value.encode.length ≤ (encodeEntries entries).length := by
  have part : (key.encode ++ value.encode).Sublist
      (entries.flatMap (fun e => encode e.1 ++ encode e.2)) :=
    List.sublist_flatten_of_mem (List.mem_map_of_mem mem)
  rw [encodeEntries_eq]
  exact ((List.sublist_append_right _ _).trans part).length_le

theorem length_head_pos (major n : Nat) : 0 < (head major n).length := by
  unfold head
  repeat' split
  all_goals exact Nat.succ_pos _

theorem length_encode_pos (item : Item) : 0 < item.encode.length := by
  have head (major n : Nat) (bs : Bytes) : 0 < (head major n ++ bs).length := by
    rw [List.length_append]
    exact Nat.add_pos_left (length_head_pos major n) _
  cases item with
  | nat | neg => exact length_head_pos _ _
  | bytes | text | array | map | tag => exact head _ _ _
  | chunks | stream | bool | null => exact Nat.succ_pos _

end Item

end ConwayTx.Cbor
