import ConwayTx.Bytes
import Mathlib.Data.Nat.Digits.Lemmas

namespace ConwayTx

def numberOf (base : Nat) (ds : List Nat) : Nat := ds.foldl (fun n d => n * base + d) 0

section Numbers

variable {base k n : Nat} {ds es : List Nat}

theorem numberOf_eq_ofDigits (base : Nat) (ds : List Nat) :
    numberOf base ds = Nat.ofDigits base ds.reverse := by
  rw [Nat.ofDigits_eq_foldr, List.foldr_reverse]
  simp only [numberOf, Nat.cast_id, Nat.mul_comm, Nat.add_comm]

theorem numberOf_append (base : Nat) (ds es : List Nat) :
    numberOf base (ds ++ es) = numberOf base ds * base ^ es.length + numberOf base es := by
  simp only [numberOf_eq_ofDigits, List.reverse_append, Nat.ofDigits_append, List.length_reverse,
    Nat.mul_comm, Nat.add_comm]

theorem numberOf_zeros_append (base k : Nat) (ds : List Nat) :
    numberOf base (List.replicate k 0 ++ ds) = numberOf base ds := by
  rw [numberOf_append, numberOf_eq_ofDigits, List.reverse_replicate, Nat.ofDigits_replicate_zero,
    Nat.zero_mul, Nat.zero_add]

theorem numberOf_lt (wide : 1 < base) (each : ∀ d ∈ ds, d < base) :
    numberOf base ds < base ^ ds.length := by
  rw [numberOf_eq_ofDigits, ← List.length_reverse]
  exact Nat.ofDigits_lt_base_pow_length wide (by simpa using each)

theorem digitsBefore_eq (k n : Nat) (written : List Nat) :
    Bytes.digitsBefore k n written = (Nat.digits (k + 2) n).reverse ++ written := by
  fun_induction Bytes.digitsBefore k n written with
  | case1 => simp
  | case2 n written nonzero ih =>
    rw [ih, Nat.digits_def' (by omega) (Nat.pos_of_ne_zero nonzero), List.reverse_cons,
      List.append_assoc, List.singleton_append]

theorem digitsBefore_lt : ∀ d ∈ Bytes.digitsBefore k n [], d < k + 2 := by
  intro d mem
  rw [digitsBefore_eq, List.append_nil, List.mem_reverse] at mem
  exact Nat.digits_lt_base' mem

theorem numberOf_digitsBefore (k n : Nat) :
    numberOf (k + 2) (Bytes.digitsBefore k n []) = n := by
  rw [numberOf_eq_ofDigits, digitsBefore_eq, List.append_nil, List.reverse_reverse,
    Nat.ofDigits_digits]

theorem digitsBefore_numberOf (each : ∀ d ∈ ds, d < k + 2) (first : ds.head? ≠ some 0) :
    Bytes.digitsBefore k (numberOf (k + 2) ds) [] = ds := by
  have digits : Nat.digits (k + 2) (Nat.ofDigits (k + 2) ds.reverse) = ds.reverse := by
    refine Nat.digits_ofDigits _ (by omega) _ (by simpa using each) fun some zero => first ?_
    rw [List.getLast_reverse] at zero
    rw [← zero, List.head?_eq_some_head]
  rw [numberOf_eq_ofDigits, digitsBefore_eq, digits, List.append_nil, List.reverse_reverse]

theorem head?_digitsBefore (k n : Nat) : (Bytes.digitsBefore k n []).head? ≠ some 0 := by
  rw [digitsBefore_eq, List.append_nil, List.head?_reverse]
  intro zero
  have some : Nat.digits (k + 2) n ≠ [] := by
    intro none
    rw [none] at zero
    cases zero
  rw [List.getLast?_eq_some_getLast some] at zero
  exact Nat.getLast_digit_ne_zero (k + 2) (Nat.digits_ne_nil_iff_ne_zero.mp some)
    (Option.some.inj zero)

def Opens (base front more n : Nat) : Prop :=
  front * base ^ more ≤ n ∧ n < (front + 1) * base ^ more

theorem opens_numberOf (wide : 1 < base) (each : ∀ d ∈ es, d < base) :
    Opens base (numberOf base ds) es.length (numberOf base (ds ++ es)) := by
  have small := numberOf_lt wide each
  rw [numberOf_append]
  constructor
  · exact Nat.le_add_right _ _
  · rw [Nat.add_one_mul]
    omega

/-- What opens with `a` stays below `low` while fewer than `m` digits stand behind it, and reaches
`high` from then on. -/
def Skips (base a m low high : Nat) : Prop :=
  (m = 0 ∨ (a + 1) * base ^ (m - 1) ≤ low) ∧ high ≤ a * base ^ m

instance (base a m low high : Nat) : Decidable (Skips base a m low high) :=
  inferInstanceAs (Decidable (_ ∧ _))

theorem Opens.not_of_skips {base' a b m more : Nat} (h : Opens base' b more n)
    (skips : Skips base a m (b * base' ^ more) ((b + 1) * base' ^ more)) (wide : 0 < base)
    (j : Nat) : ¬ Opens base a j n := by
  obtain ⟨above, below⟩ := skips
  rintro ⟨low, high⟩
  rcases Nat.lt_or_ge j m with shorter | longer
  · have upper : (a + 1) * base ^ j ≤ (a + 1) * base ^ (m - 1) :=
      Nat.mul_le_mul_left (a + 1) (Nat.pow_le_pow_right wide (by omega))
    exact absurd h.1 (by omega)
  · have lower : a * base ^ m ≤ a * base ^ j :=
      Nat.mul_le_mul_left a (Nat.pow_le_pow_right wide longer)
    exact absurd h.2 (by omega)

end Numbers

namespace Bytes

theorem toNat_eq_numberOf (bs : Bytes) : toNat bs = numberOf 256 (bs.map UInt8.toNat) := by
  rw [numberOf, List.foldl_map, toNat]

theorem toNat_zeros_append (k : Nat) (bs : Bytes) :
    toNat (List.replicate k 0 ++ bs) = toNat bs := by
  rw [toNat_eq_numberOf, toNat_eq_numberOf, List.map_append, List.map_replicate]
  exact numberOf_zeros_append 256 k _

theorem forall_mem_map_toNat_lt (bs : Bytes) : ∀ d ∈ bs.map UInt8.toNat, d < 256 := by
  intro d mem
  obtain ⟨b, _, rfl⟩ := List.mem_map.mp mem
  exact b.toNat_lt

theorem opens_toNat (front rest : Bytes) :
    Opens 256 (toNat front) rest.length (toNat (front ++ rest)) := by
  simp only [toNat_eq_numberOf, List.map_append]
  rw [← rest.length_map UInt8.toNat]
  exact opens_numberOf (by decide) rest.forall_mem_map_toNat_lt

theorem ofNatMinimal_toNat (bs : Bytes) : ofNatMinimal (toNat bs) = bs.dropWhile (· == 0) := by
  induction bs with
  | nil => simp [toNat, ofNatMinimal, digitsBefore]
  | cons b rest ih =>
    by_cases zero : b = 0
    · subst zero
      simpa [toNat] using ih
    · have first : ((b :: rest).map UInt8.toNat).head? ≠ some 0 := by
        simpa [← UInt8.toNat_inj] using zero
      rw [ofNatMinimal, toNat_eq_numberOf,
        digitsBefore_numberOf (forall_mem_map_toNat_lt (b :: rest)) first, List.map_map]
      simp [zero, Function.comp_def]

end Bytes

end ConwayTx
