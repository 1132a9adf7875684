import ConwayTx.Proofs.Except
import ConwayTx.Proofs.Text.Utf8
import ConwayTx.Text.Hex

namespace ConwayTx.Hex

def Spells (text : List Char) (bs : Bytes) : Prop := text.map Char.toLower = encodeChars bs

theorem encodeChars_cons (b : UInt8) (bs : Bytes) :
    encodeChars (b :: bs) = digit (b.toNat / 16) :: digit (b.toNat % 16) :: encodeChars bs := rfl

theorem length_encodeChars (bs : Bytes) : (encodeChars bs).length = 2 * bs.length := by
  induction bs with
  | nil => rfl
  | cons b rest ih =>
    rw [encodeChars_cons, List.length_cons, List.length_cons, List.length_cons, ih]
    omega

theorem Spells.length_eq {text : List Char} {bs : Bytes} (h : Spells text bs) :
    text.length = 2 * bs.length := by
  rw [← length_encodeChars, ← h, List.length_map]

theorem digitValue?_of_ascii : ∀ n < 128, ∀ v < 16,
    (digitValue? (UInt8.ofNat n) = some v ↔ (Char.ofNat n).toLower = digit v) := by
  decide +kernel

theorem lt_of_digitValue? {b : UInt8} {v : Nat} (h : digitValue? b = some v) :
    v < 16 ∧ b.toNat < 128 := by
  unfold digitValue? at h
  simp only at h
  repeat' split at h
  all_goals
    cases h
  all_goals omega

theorem digit_ascii : ∀ v < 16, (digit v).toNat < 128 := by
  decide

theorem toLower_of_not_ascii {c : Char} (beyond : 128 ≤ c.toNat) : c.toLower = c := by
  refine dif_neg fun ⟨_, upper⟩ => ?_
  have : c.toNat ≤ 90 := UInt32.le_iff_toNat_le.mp upper
  omega

theorem digitValue?_eq_some_iff {c : Char} {v : Nat} (ascii : c.toNat < 128) :
    digitValue? (UInt8.ofNat c.toNat) = some v ↔ v < 16 ∧ c.toLower = digit v := by
  have each := digitValue?_of_ascii c.toNat ascii
  rw [Char.ofNat_toNat] at each
  constructor
  · intro h
    have small := (lt_of_digitValue? h).1
    exact ⟨small, (each v small).mp h⟩
  · rintro ⟨small, same⟩
    exact (each v small).mpr same

theorem Spells.ascii {text : List Char} {bs : Bytes} (h : Spells text bs) :
    ∀ c ∈ text, c.toNat < 128 := by
  intro c mem
  by_contra beyond
  have lower : c.toLower ∈ encodeChars bs := h ▸ List.mem_map_of_mem mem
  obtain ⟨b, _, digit⟩ := List.mem_flatMap.mp lower
  rw [toLower_of_not_ascii (Nat.not_lt.mp beyond)] at digit
  have small := b.toNat_lt
  simp only [List.mem_cons, List.not_mem_nil, or_false] at digit
  rcases digit with rfl | rfl
  · exact beyond (digit_ascii _ (by omega))
  · exact beyond (digit_ascii _ (by omega))

theorem ascii_of_decodePairs {position : Nat} {text bs : Bytes}
    (h : decodePairs position text = .ok bs) : ∀ b ∈ text, b.toNat < 128 := by
  fun_induction decodePairs position text generalizing bs with
  | case1 => cases h
  | case2 => cases h
  | case3 position high low rest hv lv eh el ih =>
    obtain ⟨tail, later, _⟩ := Except.map_eq_ok.mp h
    exact List.forall_mem_cons.mpr ⟨(lt_of_digitValue? el).2,
      List.forall_mem_cons.mpr ⟨(lt_of_digitValue? eh).2, ih later⟩⟩
  | case4 => cases h
  | case5 => simp

theorem halves {b : UInt8} {h l : Nat} (high : h < 16) (low : l < 16) :
    UInt8.ofNat (h * 16 + l) = b ↔ h = b.toNat / 16 ∧ l = b.toNat % 16 := by
  have := b.toNat_lt
  rw [← UInt8.toNat_inj, UInt8.toNat_ofNat']
  omega

theorem decodePairs_cons_eq_ok_iff {position : Nat} {high low : UInt8} {rest bs : Bytes} :
    decodePairs position (high :: low :: rest) = .ok bs ↔
      ∃ b tail, digitValue? high = some (b.toNat / 16) ∧ digitValue? low = some (b.toNat % 16) ∧
        decodePairs (position + 2) rest = .ok tail ∧ b :: tail = bs := by
  rw [decodePairs]
  split
  · rename_i none
    simp [none]
  · rename_i none _
    simp [none]
  · rename_i h l eh el
    have pair := fun b : UInt8 => halves (b := b) (lt_of_digitValue? eh).1 (lt_of_digitValue? el).1
    simp only [eh, el, Except.map_eq_ok, Option.some.injEq]
    constructor
    · rintro ⟨tail, later, rfl⟩
      obtain ⟨top, bottom⟩ := (pair _).mp rfl
      exact ⟨_, tail, top, bottom, later, rfl⟩
    · rintro ⟨b, tail, top, bottom, later, rfl⟩
      exact ⟨tail, later, congrArg (· :: tail) ((pair b).mpr ⟨top, bottom⟩)⟩

theorem spells_cons_iff {c d : Char} {rest : List Char} {bs : Bytes} :
    Spells (c :: d :: rest) bs ↔ ∃ b tail, c.toLower = digit (b.toNat / 16) ∧
      d.toLower = digit (b.toNat % 16) ∧ Spells rest tail ∧ b :: tail = bs := by
  cases bs with
  | nil => simp [Spells, encodeChars]
  | cons b tail =>
    simp only [Spells, encodeChars_cons, List.map_cons, List.cons.injEq]
    constructor
    · rintro ⟨high, low, later⟩
      exact ⟨b, tail, high, low, later, rfl, rfl⟩
    · rintro ⟨_, _, high, low, later, rfl, rfl⟩
      exact ⟨high, low, later⟩

theorem decodePairs_eq_ok_iff {position : Nat} {bs : Bytes} :
    ∀ {text : List Char}, (∀ c ∈ text, c.toNat < 128) →
      (decodePairs position (text.map (fun c => UInt8.ofNat c.toNat)) = .ok bs ↔ Spells text bs)
  | [], _ => by
    cases bs with
    | nil => exact iff_of_true rfl rfl
    | cons b tail => exact iff_of_false nofun nofun
  | [c], _ => by
    refine iff_of_false nofun fun h => ?_
    have := h.length_eq
    rw [List.length_singleton] at this
    omega
  | c :: d :: rest, ascii => by
    simp only [List.forall_mem_cons] at ascii
    obtain ⟨high, low, others⟩ := ascii
    simp only [List.map_cons, decodePairs_cons_eq_ok_iff, spells_cons_iff,
      digitValue?_eq_some_iff high, digitValue?_eq_some_iff low, decodePairs_eq_ok_iff others]
    constructor
    · rintro ⟨b, tail, ⟨_, top⟩, ⟨_, bottom⟩, later⟩
      exact ⟨b, tail, top, bottom, later⟩
    · rintro ⟨b, tail, top, bottom, later⟩
      have := b.toNat_lt
      exact ⟨b, tail, ⟨by omega, top⟩, ⟨by omega, bottom⟩, later⟩

theorem decode_eq_ok_iff {text : String} {bs : Bytes} :
    decode text = .ok bs ↔ Spells text.toList bs := by
  rw [decode, String.toList_toUTF8, decodeUtf8]
  constructor
  · intro h
    split at h
    · cases h
    · have ascii := String.ascii_of_utf8 (ascii_of_decodePairs h)
      rw [String.utf8_of_ascii ascii] at h
      exact (decodePairs_eq_ok_iff ascii).mp h
  · intro h
    have even : text.toList.length % 2 ≠ 1 := by
      rw [h.length_eq]
      omega
    rw [String.utf8_of_ascii h.ascii, List.length_map, if_neg even]
    exact (decodePairs_eq_ok_iff h.ascii).mpr h

end ConwayTx.Hex
