
namespace ByteArray

theorem toList_loop (bs : ByteArray) (i : Nat) (r : List UInt8) :
    toList.loop bs i r = r.reverse ++ bs.data.toList.drop i := by
  fun_induction toList.loop bs i r with
  | case1 i r more ih =>
    have within : i < bs.data.toList.length := more
    have byte : bs.get! i = bs.data.toList[i] := getElem!_pos bs.data i more
    rw [ih, List.drop_eq_getElem_cons within, List.reverse_cons, List.append_assoc,
      List.singleton_append, byte]
  | case2 i r done =>
    have beyond : bs.data.toList.length ≤ i := Nat.not_lt.mp done
    rw [List.drop_eq_nil_of_le beyond, List.append_nil]

theorem toList_eq (bs : ByteArray) : bs.toList = bs.data.toList :=
  toList_loop bs 0 []

theorem length_toList (bs : ByteArray) : bs.toList.length = bs.size := by
  rw [toList_eq]
  rfl

end ByteArray

namespace String

theorem toList_toUTF8 (text : String) :
    text.toUTF8.toList = text.toList.flatMap utf8EncodeChar := by
  rw [toUTF8_eq_toByteArray, ← utf8Encode_toList, ByteArray.toList_eq, List.utf8Encode,
    List.toList_data_toByteArray]

theorem toUTF8_toList_inj {s t : String} : s.toUTF8.toList = t.toUTF8.toList ↔ s = t := by
  constructor
  · intro same
    rw [ByteArray.toList_eq, ByteArray.toList_eq, Array.toList_inj] at same
    exact toByteArray_inj.mp (ByteArray.ext same)
  · rintro rfl
    rfl

theorem utf8EncodeChar_of_ascii {c : Char} (ascii : c.toNat < 128) :
    utf8EncodeChar c = [UInt8.ofNat c.toNat] :=
  if_pos (Nat.le_of_lt_succ ascii)

theorem exists_utf8EncodeChar_of_not_ascii {c : Char} (beyond : 128 ≤ c.toNat) :
    ∃ first rest, utf8EncodeChar c = first :: rest ∧ 128 ≤ first.toNat := by
  unfold utf8EncodeChar
  simp only
  split
  · rename_i ascii
    exact absurd beyond (Nat.not_le.mpr (Nat.lt_succ_of_le ascii))
  · split
    · refine ⟨_, _, rfl, ?_⟩
      simp only [UInt8.toNat_ofNat']
      omega
    · split
      · refine ⟨_, _, rfl, ?_⟩
        simp only [UInt8.toNat_ofNat']
        omega
      · refine ⟨_, _, rfl, ?_⟩
        simp only [UInt8.toNat_ofNat']
        omega

theorem utf8_of_ascii {text : List Char} (ascii : ∀ c ∈ text, c.toNat < 128) :
    text.flatMap utf8EncodeChar = text.map (fun c => UInt8.ofNat c.toNat) := by
  induction text with
  | nil => rfl
  | cons c rest ih =>
    obtain ⟨first, others⟩ := List.forall_mem_cons.mp ascii
    rw [List.flatMap_cons, utf8EncodeChar_of_ascii first, ih others, List.map_cons,
      List.singleton_append]

theorem ascii_of_utf8 {text : List Char}
    (ascii : ∀ b ∈ text.flatMap utf8EncodeChar, b.toNat < 128) : ∀ c ∈ text, c.toNat < 128 := by
  intro c mem
  refine Nat.lt_of_not_le fun beyond => ?_
  obtain ⟨first, rest, bytes, high⟩ := exists_utf8EncodeChar_of_not_ascii beyond
  have low := ascii first (List.mem_flatMap.mpr ⟨c, mem, bytes ▸ List.mem_cons_self⟩)
  omega

end String
