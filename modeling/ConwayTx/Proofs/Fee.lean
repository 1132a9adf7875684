import ConwayTx.Fee
import ConwayTx.Proofs.Cbor
/-!
The rule for the least lovelace of an output. The size it prices counts the bytes of the lovelace
itself, so an amount is enough if it meets the rule once the output holds it. The least such amount
is found; an amount beyond it can be written in more bytes, and these have to be paid for as well.
-/

namespace ConwayTx

open Cbor (width)

theorem Value.length_encode_withLovelace (v : Value) (n : UInt64) :
    (toItem { v with lovelace := n }).encode.length + width v.lovelace =
      v.toItem.encode.length + width n := by
  unfold toItem
  rw [show hasAssets { v with lovelace := n } = v.hasAssets from rfl]
  cases v.hasAssets with
  | true =>
    simp only [if_true, Cbor.Item.encode, Cbor.Item.encodeAll, List.length_append,
      width]
    omega
  | false =>
    simp only [Bool.false_eq_true, if_false, Cbor.Item.encode, width]
    omega

namespace TxOut

theorem size_withLovelace (o : TxOut) (n : UInt64) :
    (o.withLovelace n).size + width o.value.lovelace = o.size + width n := by
  have value := o.value.length_encode_withLovelace n
  simp only [size, toItem, withLovelace, Cbor.Item.encode, List.cons_append, List.nil_append,
    Cbor.Item.encodeEntries, List.length_append]
  omega

end TxOut

namespace Fee

variable {c : UInt64} {o : TxOut}

theorem toNat_minLovelace (c : UInt64) (o : TxOut) :
    (minLovelace c o).toNat = min ((outputOverhead + o.size) * c.toNat) (UInt64.size - 1) := by
  rw [minLovelace, UInt64.toNat_saturatingMul, UInt64.toNat_clamp]
  rcases Nat.le_total (outputOverhead + o.size) (UInt64.size - 1) with small | large
  · rw [Nat.min_eq_left small]
  · -- Beyond a word any price but zero leads to the largest word.
    rw [Nat.min_eq_right large]
    rcases Nat.eq_zero_or_pos c.toNat with free | paid
    · rw [free, Nat.mul_zero, Nat.mul_zero]
    · rw [Nat.min_eq_right (Nat.le_mul_of_pos_right _ paid),
        Nat.min_eq_right (Nat.le_trans large (Nat.le_mul_of_pos_right _ paid))]

theorem minLovelace_withLovelace_le (c : UInt64) (o : TxOut) (n : UInt64) :
    (minLovelace c o).toNat ≤ (minLovelace c (o.withLovelace n)).toNat +
      (width o.value.lovelace - width n) * c.toNat := by
  have sizes := o.size_withLovelace n
  have grown : outputOverhead + o.size ≤
      outputOverhead + (o.withLovelace n).size + (width o.value.lovelace - width n) := by omega
  have priced := Nat.mul_le_mul_right c.toNat grown
  rw [Nat.add_mul (outputOverhead + _)] at priced
  rw [toNat_minLovelace, toNat_minLovelace]
  omega

theorem minLovelace_mono {m n : UInt64} (h : m ≤ n) :
    minLovelace c (o.withLovelace m) ≤ minLovelace c (o.withLovelace n) := by
  have narrower : width (o.withLovelace m).value.lovelace ≤ width n := Cbor.width_mono h
  have bound := minLovelace_withLovelace_le c (o.withLovelace m) n
  rw [Nat.sub_eq_zero_of_le narrower, Nat.zero_mul, Nat.add_zero] at bound
  exact UInt64.le_iff_toNat_le.mpr bound

def Enough (c : UInt64) (o : TxOut) (n : UInt64) : Prop := minLovelace c (o.withLovelace n) ≤ n

theorem settleFrom_enough (c : UInt64) (o : TxOut) (n : UInt64) :
    Enough c o (settleFrom c o n) := by
  fun_induction settleFrom c o n with
  | case1 n enough => exact enough
  | case2 n _ ih => exact ih

theorem settleFrom_le {least n : UInt64} (start : n ≤ least) (enough : Enough c o least) :
    settleFrom c o n ≤ least := by
  fun_induction settleFrom c o n with
  | case1 n _ => exact start
  | case2 n _ ih => exact ih (UInt64.le_trans (minLovelace_mono start) enough)

theorem settleFrom_withLovelace (c : UInt64) (o : TxOut) (m n : UInt64) :
    settleFrom c (o.withLovelace m) n = settleFrom c o n := by
  fun_induction settleFrom c o n with
  | case1 n enough =>
    rw [settleFrom]
    exact if_pos enough
  | case2 n short ih =>
    rw [settleFrom.eq_def c (o.withLovelace m)]
    exact (if_neg short).trans ih

theorem requiredLovelace_withLovelace (c : UInt64) (o : TxOut) (n : UInt64) :
    requiredLovelace c (o.withLovelace n) = requiredLovelace c o :=
  settleFrom_withLovelace _ _ _ _

theorem requiredLovelace_enough (c : UInt64) (o : TxOut) :
    Enough c o (requiredLovelace c o) :=
  settleFrom_enough _ _ _

theorem requiredLovelace_le {n : UInt64} (enough : Enough c o n) : requiredLovelace c o ≤ n := by
  have start : minLovelace c (o.withLovelace 0) ≤ minLovelace c (o.withLovelace n) :=
    minLovelace_mono (UInt64.le_iff_toNat_le.mpr (Nat.zero_le _))
  exact settleFrom_le (UInt64.le_trans start enough) enough

section Held

variable (held : requiredLovelace c o ≤ o.value.lovelace)
include held

theorem minLovelace_le_of_required_le :
    (minLovelace c o).toNat ≤ o.value.lovelace.toNat +
      (width o.value.lovelace - width (requiredLovelace c o)) * c.toNat := by
  calc
    (minLovelace c o).toNat
      ≤ (minLovelace c (o.withLovelace (requiredLovelace c o))).toNat +
          (width o.value.lovelace - width (requiredLovelace c o)) * c.toNat :=
        minLovelace_withLovelace_le _ _ _
    _ ≤ (requiredLovelace c o).toNat +
          (width o.value.lovelace - width (requiredLovelace c o)) * c.toNat :=
        Nat.add_le_add_right (UInt64.le_iff_toNat_le.mp (requiredLovelace_enough c o)) _
    _ ≤ _ := Nat.add_le_add_right (UInt64.le_iff_toNat_le.mp held) _

theorem minLovelace_le_of_price (low : UInt16.size ≤ outputOverhead * c.toNat)
    (high : (outputOverhead + o.size) * c.toNat ≤ UInt32.size) :
    minLovelace c o ≤ o.value.lovelace := by
  rw [UInt64.le_iff_toNat_le]
  by_cases wide : UInt32.size ≤ o.value.lovelace.toNat
  · rw [toNat_minLovelace]
    exact Nat.le_trans (Nat.min_le_left _ _) (Nat.le_trans high wide)
  · have settled := UInt64.le_iff_toNat_le.mp (requiredLovelace_enough c o)
    have base : outputOverhead * c.toNat ≤
        (outputOverhead + (o.withLovelace (requiredLovelace c o)).size) * c.toNat :=
      Nat.mul_le_mul_right _ (Nat.le_add_right _ _)
    rw [toNat_minLovelace] at settled
    have reached : UInt16.size ≤ (requiredLovelace c o).toNat := by
      simp only [UInt16.size, UInt64.size] at *
      omega
    have same : width o.value.lovelace ≤ width (requiredLovelace c o) := by
      simp only [Cbor.width_eq, UInt8.size, UInt16.size, UInt32.size] at *
      repeat' split
      all_goals omega
    have bound := minLovelace_le_of_required_le held
    rwa [Nat.sub_eq_zero_of_le same, Nat.zero_mul, Nat.add_zero] at bound

end Held

end Fee

end ConwayTx
