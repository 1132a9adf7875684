import ConwayTx.VarNat
import Mathlib.Algebra.Group.Nat.Defs

namespace ConwayTx.VarNat

inductive SpellsFrom : (acc : Nat) → Bytes → (n : Nat) → Prop
  | last {acc n : Nat} {b : UInt8} : b.toNat < 128 → n = acc * 128 + b.toNat → SpellsFrom acc [b] n
  | more {acc n : Nat} {b : UInt8} {bs : Bytes} : 128 ≤ b.toNat →
    SpellsFrom (acc * 128 + b.toNat % 128) bs n → SpellsFrom acc (b :: bs) n

def Spells (bs : Bytes) (n : UInt64) : Prop := SpellsFrom 0 bs n.toNat

/-- Does not start with a group of zeros, unless that is all there is. -/
def Unpadded (bs : Bytes) : Prop := bs.head? ≠ some 128

instance (bs : Bytes) : Decidable (Unpadded bs) := inferInstanceAs (Decidable (_ ≠ _))

theorem SpellsFrom.le {acc n : Nat} {bs : Bytes} (h : SpellsFrom acc bs n) : acc * 128 ≤ n := by
  induction h with
  | last => omega
  | more _ _ ih => omega

theorem readFrom_of_spells {acc : Nat} {bs : Bytes} {n : UInt64} (h : SpellsFrom acc bs n.toNat)
    (rest : Bytes) : readFrom acc (bs ++ rest) = (.ok n, rest) := by
  have fits := n.toNat_lt_size
  generalize value : n.toNat = v at h fits
  induction h with
  | @last acc v b low digit =>
    have room : acc * 128 < UInt64.size := by omega
    have digit : acc * 128 + b.toNat % 128 = n.toNat := by omega
    simp [readFrom, room, low, digit]
  | @more acc v b bs high later ih =>
    have room : acc * 128 < UInt64.size := by
      have := later.le
      omega
    have more : ¬ b.toNat < 128 := by omega
    simp [readFrom, room, more, ih value fits]

theorem exists_spells_of_readFrom {acc : Nat} {bs rest : Bytes} {n : UInt64}
    (h : readFrom acc bs = (.ok n, rest)) :
    ∃ front, bs = front ++ rest ∧ SpellsFrom acc front n.toNat := by
  induction bs generalizing acc with
  | nil => simp [readFrom] at h
  | cons b bs ih =>
    rw [readFrom] at h
    split at h
    · rename_i room
      by_cases low : b.toNat < 128
      · simp only [low, if_true, Prod.mk.injEq, Except.ok.injEq] at h
        obtain ⟨value, rfl⟩ := h
        have digit : n.toNat = acc * 128 + b.toNat := by
          simp only [UInt64.size] at room
          rw [← value, UInt64.toNat_ofNat']
          omega
        exact ⟨[b], rfl, .last low digit⟩
      · simp only [low, if_false] at h
        obtain ⟨front, rfl, later⟩ := ih h
        exact ⟨b :: front, rfl, .more (Nat.not_lt.mp low) later⟩
    · cases h

theorem next_eq_ok_iff {bs rest : Bytes} {n : UInt64} :
    next bs = .ok (n, rest) ↔ ∃ front, bs = front ++ rest ∧ Spells front n := by
  constructor
  · intro h
    unfold next at h
    split at h
    · rename_i answer
      cases h
      exact exists_spells_of_readFrom answer
    · cases h
  · rintro ⟨front, rfl, h⟩
    simp only [next, read, readFrom_of_spells h]

theorem leading_spells {n m : Nat} {written : Bytes} (h : SpellsFrom n written m) :
    SpellsFrom 0 (leading n written) m := by
  fun_induction leading n written with
  | case1 => exact h
  | case2 n written nonzero ih =>
    have byte : (UInt8.ofNat (n % 128 + 128)).toNat = n % 128 + 128 := by
      rw [UInt8.toNat_ofNat']
      omega
    have value : n / 128 * 128 + (n % 128 + 128) % 128 = n := by omega
    exact ih (.more (by omega) (by rwa [byte, value]))

theorem encode_spells (n : UInt64) : Spells (encode n) n := by
  have byte : (UInt8.ofNat (n.toNat % 128)).toNat = n.toNat % 128 := by
    rw [UInt8.toNat_ofNat']
    omega
  exact leading_spells (.last (by omega) (by omega))

theorem leading_of_spells {acc n : Nat} {bs : Bytes} (h : SpellsFrom acc bs n)
    (start : acc ≠ 0 ∨ Unpadded bs) :
    leading acc bs = leading (n / 128) [UInt8.ofNat (n % 128)] := by
  induction h with
  | @last acc n b low value =>
    have high : n / 128 = acc := by omega
    have digit : n % 128 = b.toNat := by omega
    rw [high, digit, UInt8.ofNat_toNat]
  | @more acc n b bs high later ih =>
    have bound := b.toNat_lt
    have nonzero : acc * 128 + b.toNat % 128 ≠ 0 := by
      rcases start with before | unpadded
      · omega
      · have : b.toNat ≠ 128 := fun same => unpadded (congrArg some (UInt8.toNat_inj.mp same))
        omega
    have carried : (acc * 128 + b.toNat % 128) / 128 = acc := by omega
    have byte : UInt8.ofNat ((acc * 128 + b.toNat % 128) % 128 + 128) = b := by
      have : (acc * 128 + b.toNat % 128) % 128 + 128 = b.toNat := by omega
      rw [this, UInt8.ofNat_toNat]
    rw [← ih (.inl nonzero), leading.eq_1 (acc * 128 + _), if_neg nonzero, carried, byte]

theorem encode_unpadded (n : UInt64) : Unpadded (encode n) := by
  suffices ∀ (m : Nat) (written : Bytes), m ≠ 0 ∨ Unpadded written → Unpadded (leading m written) by
    apply this
    refine .inr (fun same => ?_)
    have byte := congrArg UInt8.toNat (Option.some.inj same)
    rw [UInt8.toNat_ofNat'] at byte
    have : (128 : UInt8).toNat = 128 := rfl
    omega
  intro m written start
  fun_induction leading m written with
  | case1 => exact start.resolve_left (fun nonzero => nonzero rfl)
  | case2 m written nonzero ih =>
    apply ih
    by_cases first : m / 128 = 0
    · refine .inr (fun same => ?_)
      have byte := congrArg UInt8.toNat (Option.some.inj same)
      rw [UInt8.toNat_ofNat'] at byte
      have : (128 : UInt8).toNat = 128 := rfl
      omega
    · exact .inl first

theorem Spells.eq_encode_iff {bs : Bytes} {n : UInt64} (h : Spells bs n) :
    bs = encode n ↔ Unpadded bs := by
  constructor
  · rintro rfl
    exact encode_unpadded n
  · intro unpadded
    have same := leading_of_spells h (.inr unpadded)
    rwa [leading.eq_1, if_pos rfl] at same

theorem length_leading_le {k n : Nat} (written : Bytes) (h : n < 128 ^ k) :
    (leading n written).length ≤ k + written.length := by
  induction k generalizing n written with
  | zero =>
    obtain rfl : n = 0 := by simpa using h
    simp [leading]
  | succ k ih =>
    unfold leading
    split
    · omega
    · have below : n / 128 < 128 ^ k := by
        rw [Nat.pow_succ] at h
        omega
      have := ih (UInt8.ofNat (n % 128 + 128) :: written) below
      rw [List.length_cons] at this
      omega

theorem length_encode_le (n : UInt64) : (encode n).length ≤ 10 := by
  have fits := n.toNat_lt
  have below : n.toNat / 128 < 128 ^ 9 := by omega
  exact length_leading_le _ below

end ConwayTx.VarNat
