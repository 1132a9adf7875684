import ConwayTx.Proofs.Fee
import Mathlib.Logic.Function.Iterate
import Mathlib.Order.Bounds.Defs

namespace ConwayTx

namespace Cbor

def forms : List Nat := [1, 2, 3, 5, 9]

def grade (n : UInt64) : Nat := forms.idxOf (width n)

theorem width_mem_forms (n : UInt64) : width n ∈ forms := by
  rw [width_eq]
  repeat' split
  all_goals decide

theorem grade_le (n : UInt64) : grade n ≤ 4 :=
  Nat.le_of_lt_succ (List.idxOf_lt_length_of_mem (width_mem_forms n))

theorem grade_lt {m n : UInt64} (h : width m < width n) : grade m < grade n := by
  have ascending : ∀ a ∈ forms, ∀ b ∈ forms, a < b → forms.idxOf a < forms.idxOf b := by decide
  exact ascending _ (width_mem_forms m) _ (width_mem_forms n) h

end Cbor

open Cbor (width grade)

namespace Fee

variable {c : UInt64} {o : TxOut}

def asked (c : UInt64) (o : TxOut) (n : UInt64) : UInt64 := minLovelace c (o.withLovelace n)

theorem width_lt_of_asked_lt {m n : UInt64} (h : asked c o m < asked c o n) :
    width m < width n := by
  by_contra same
  have bound := minLovelace_withLovelace_le c (o.withLovelace n) m
  have narrower : width (o.withLovelace n).value.lovelace ≤ width m := Nat.not_lt.mp same
  rw [Nat.sub_eq_zero_of_le narrower, Nat.zero_mul, Nat.add_zero] at bound
  exact UInt64.not_le.mpr h (UInt64.le_iff_toNat_le.mpr bound)

theorem settleFrom_of_asked {m n : UInt64} (reached : asked c o n = m) :
    ∃ more, settleFrom c o m = (asked c o)^[more + 1] n ∧
      (∀ k < more, (asked c o)^[k + 1] n < (asked c o)^[k + 2] n) ∧ grade n + more ≤ 4 := by
  fun_induction settleFrom c o m generalizing n with
  | case1 m _ => exact ⟨0, reached.symm, by simp, Cbor.grade_le n⟩
  | case2 m short ih =>
    obtain ⟨more, result, rising, graded⟩ := ih (n := m) rfl
    have rises : asked c o n < asked c o m := by
      rw [reached]
      exact UInt64.not_le.mp short
    have wider := Cbor.grade_lt (width_lt_of_asked_lt rises)
    refine ⟨more + 1, ?_, fun k before => ?_, by omega⟩
    · rw [Function.iterate_succ_apply, reached]
      exact result
    · cases k with
      | zero =>
        rw [← reached] at rises
        exact rises
      | succ k =>
        rw [Function.iterate_succ_apply _ (k + 1), Function.iterate_succ_apply _ (k + 2), reached]
        exact rising k (by omega)

theorem isLeast_requiredLovelace (c : UInt64) (o : TxOut) :
    IsLeast {n | minLovelace c (o.withLovelace n) ≤ n} (requiredLovelace c o) :=
  ⟨requiredLovelace_enough c o, fun _ => requiredLovelace_le⟩

theorem asked_requiredLovelace (c : UInt64) (o : TxOut) :
    asked c o (requiredLovelace c o) = requiredLovelace c o := by
  have enough : asked c o (requiredLovelace c o) ≤ requiredLovelace c o :=
    requiredLovelace_enough c o
  exact UInt64.le_antisymm enough (requiredLovelace_le (minLovelace_mono enough))

/-- At most five passes find the least lovelace that is enough for an output that holds it, each but
the last asking for less than the next. It is what the output then needs, neither less nor more, and
it does not depend on what the output held before. -/
theorem requiredLovelace_least_fixed (c : UInt64) (o : TxOut) :
    (∃ passes, 1 ≤ passes ∧ passes ≤ 5 ∧ requiredLovelace c o = (asked c o)^[passes] 0 ∧
      ∀ k, 1 ≤ k → k < passes → (asked c o)^[k] 0 < (asked c o)^[k + 1] 0) ∧
    minLovelace c (o.withLovelace (requiredLovelace c o)) = requiredLovelace c o ∧
    IsLeast {n | minLovelace c (o.withLovelace n) ≤ n} (requiredLovelace c o) ∧
    ∀ n, requiredLovelace c (o.withLovelace n) = requiredLovelace c o := by
  refine ⟨?_, asked_requiredLovelace c o, isLeast_requiredLovelace c o,
    requiredLovelace_withLovelace c o⟩
  obtain ⟨more, result, rising, graded⟩ := settleFrom_of_asked (c := c) (o := o) (n := 0) rfl
  refine ⟨more + 1, Nat.succ_pos _, by omega, result, fun k first before => ?_⟩
  obtain ⟨k, rfl⟩ := Nat.exists_eq_add_of_le' first
  exact rising k (by omega)

/-- Nothing is held yet, so 711150 is asked for first; that takes four bytes more. -/
example : requiredLovelace 4310 { address := .none, value := .zero } = 728390 := by
  cbv

end Fee

end ConwayTx
