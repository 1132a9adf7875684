import ConwayTx.Fee
import Mathlib.Algebra.BigOperators.Ring.Finset
import Mathlib.Algebra.Order.BigOperators.Group.Finset
import Mathlib.Data.Rat.Floor
import Mathlib.Tactic.Ring
import Mathlib.Tactic.Positivity

namespace ConwayTx

namespace Fee

open Finset (range)

def tierWeight (bytes : Nat) : Rat :=
  tierSize * ∑ i ∈ range (bytes / tierSize), (6 / 5 : Rat) ^ i +
    (bytes % tierSize : Nat) * (6 / 5 : Rat) ^ (bytes / tierSize)

theorem tierWeight_of_lt {bytes : Nat} (few : bytes < tierSize) : tierWeight bytes = bytes := by
  rw [tierWeight, Nat.div_eq_of_lt few, Nat.mod_eq_of_lt few, Finset.sum_range_zero, pow_zero]
  ring

theorem tierWeight_tier_add (bytes : Nat) :
    tierWeight (tierSize + bytes) = tierSize + 6 / 5 * tierWeight bytes := by
  have tier : 0 < tierSize := by decide
  rw [tierWeight, tierWeight, Nat.add_div_left _ tier, Nat.add_mod_left, Finset.sum_range_succ']
  simp only [pow_succ, pow_zero, ← Finset.sum_mul]
  ring

theorem tieredCost_eq (price : Rat) (bytes : Nat) :
    tieredCost price bytes = price * tierWeight bytes := by
  fun_induction tieredCost price bytes with
  | case1 price bytes few => rw [tierWeight_of_lt few]
  | case2 price bytes full ih =>
    obtain ⟨more, rfl⟩ := Nat.exists_eq_add_of_le (Nat.not_lt.mp full)
    rw [Nat.add_sub_cancel_left] at ih
    rw [Nat.add_sub_cancel_left, ih, tierWeight_tier_add]
    ring

theorem tierWeight_succ (bytes : Nat) :
    tierWeight (bytes + 1) = tierWeight bytes + (6 / 5) ^ (bytes / tierSize) := by
  have bound : bytes % tierSize < tierSize := Nat.mod_lt _ (by decide)
  rcases Nat.lt_or_eq_of_le (Nat.succ_le_of_lt bound) with inside | last
  · have same : (bytes + 1) / tierSize = bytes / tierSize := by
      unfold tierSize at *
      omega
    have next : (bytes + 1) % tierSize = bytes % tierSize + 1 := by
      unfold tierSize at *
      omega
    rw [tierWeight, tierWeight, same, next, Nat.cast_succ]
    ring
  · -- The byte fills its tier.
    have more : (bytes + 1) / tierSize = bytes / tierSize + 1 := by
      unfold tierSize at *
      omega
    have none : (bytes + 1) % tierSize = 0 := by
      unfold tierSize at *
      omega
    have full : (tierSize : Rat) = (bytes % tierSize : Nat) + 1 := by
      rw [← Nat.cast_succ, last]
    rw [tierWeight, tierWeight, more, none, Finset.sum_range_succ, mul_add, Nat.cast_zero]
    nth_rewrite 2 [full]
    ring

theorem tierWeight_mono : Monotone tierWeight := by
  refine monotone_nat_of_le_succ fun bytes => ?_
  rw [tierWeight_succ]
  exact le_add_of_nonneg_right (by positivity)

theorem tierWeight_nonneg (bytes : Nat) : 0 ≤ tierWeight bytes := by
  unfold tierWeight
  positivity

theorem toNat_refScript (price : Ratio) (bytes : Nat) :
    (refScript price bytes).toNat =
      min ⌊price.toRat * tierWeight bytes⌋₊ (UInt64.size - 1) := by
  rw [refScript, UInt64.toNat_clamp, tieredCost_eq]
  rfl

theorem refScript_le {price dearer : Ratio} {bytes more : Nat}
    (h : price.toRat * tierWeight bytes ≤ dearer.toRat * tierWeight more) :
    refScript price bytes ≤ refScript dearer more := by
  rw [UInt64.le_iff_toNat_le, toNat_refScript, toNat_refScript]
  exact min_le_min_right _ (Nat.floor_mono h)

/-- The price in closed form, rounded down once; beyond a word it is the largest word. More bytes
and a higher price for the first of them never cost less. -/
theorem refScript_geometric (price : Ratio) (bytes : Nat) :
    (refScript price bytes).toNat = min (UInt64.size - 1)
      ⌊price.toRat * (tierSize * ∑ i ∈ range (bytes / tierSize), (6 / 5 : Rat) ^ i +
        (bytes % tierSize : Nat) * (6 / 5 : Rat) ^ (bytes / tierSize))⌋₊ ∧
    (∀ more, bytes ≤ more → refScript price bytes ≤ refScript price more) ∧
    ∀ dearer : Ratio, price.toRat ≤ dearer.toRat →
      refScript price bytes ≤ refScript dearer bytes := by
  refine ⟨?closed, fun more le => ?bytes, fun dearer le => ?price⟩
  case closed =>
    rw [toNat_refScript, min_comm]
    rfl
  case bytes =>
    have nonneg : 0 ≤ price.toRat := div_nonneg (Nat.cast_nonneg _) (Nat.cast_nonneg _)
    exact refScript_le (mul_le_mul_of_nonneg_left (tierWeight_mono le) nonneg)
  case price => exact refScript_le (mul_le_mul_of_nonneg_right le (tierWeight_nonneg bytes))

/-- One full tier, and 4400 bytes at 18. -/
example : refScript (Ratio.ofWord 15) 30000 = 463200 := by
  cbv

end Fee

end ConwayTx
