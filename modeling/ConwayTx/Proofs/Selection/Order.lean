import ConwayTx.Selection
import ConwayTx.Proofs.OrdMap

namespace ConwayTx

namespace Utxo

theorem eq_of_ref_eq {us : List Utxo} (nodup : (us.map ref).Nodup) :
    ∀ u ∈ us, ∀ v ∈ us, u.ref = v.ref → u = v :=
  fun _ here _ there same => List.inj_on_of_nodup_map nodup here there same

def lack (quantity : Value → UInt64) (u : Utxo) : List Nat :=
  (UInt64.size - 1 - (quantity u.value).toNat) :: Ranked.rank u.ref

theorem ref_eq_of_lack_eq {quantity : Value → UInt64} {u v : Utxo}
    (h : lack quantity u = lack quantity v) : u.ref = v.ref :=
  Ranked.rank_inj (List.cons.inj h).2

theorem lack_precedes_iff {quantity : Value → UInt64} {a b : Utxo} :
    Ranked.Precedes (lack quantity b) (lack quantity a) ↔
      (quantity a.value).toNat < (quantity b.value).toNat ∨
        (quantity a.value).toNat = (quantity b.value).toNat ∧ Ranked.Precedes b.ref a.ref := by
  have ha := (quantity a.value).toNat_lt_size
  have hb := (quantity b.value).toNat_lt_size
  rw [lack, lack, Ranked.precedes_cons_iff]
  apply or_congr
  · omega
  · apply and_congr
    · omega
    · rfl

theorem atLeast_eq (quantity : Value → UInt64) (a b : Utxo) :
    atLeast quantity a b = !decide (Ranked.Precedes (lack quantity b) (lack quantity a)) := by
  rw [Bool.eq_iff_iff, atLeast, Bool.not_eq_true', decide_eq_false_iff_not, lack_precedes_iff]
  simp only [Bool.or_eq_true, Bool.and_eq_true, decide_eq_true_eq, beq_iff_eq, Bool.not_eq_true',
    decide_eq_false_iff_not, UInt64.lt_iff_toNat_lt, ← UInt64.toNat_inj]
  by_cases after : Ranked.Precedes b.ref a.ref
  · simp only [after, not_true, and_false, or_false, and_true]
    omega
  · simp only [after, not_false_eq_true, and_true, and_false, or_false]
    omega

theorem largestFirst_eq_sortOn (quantity : Value → UInt64) (us : List Utxo) :
    largestFirst quantity us = Ranked.sortOn (lack quantity) us :=
  Ranked.mergeSort_eq_sortOn (atLeast_eq quantity) us

theorem largestFirst_eq_of_perm {us vs : List Utxo} (nodup : (us.map ref).Nodup)
    (perm : us.Perm vs) (quantity : Value → UInt64) :
    largestFirst quantity us = largestFirst quantity vs := by
  rw [largestFirst_eq_sortOn, largestFirst_eq_sortOn]
  refine Ranked.sortOn_eq_of_perm ?_ perm
  intro u here v there same
  exact eq_of_ref_eq nodup u here v there (ref_eq_of_lack_eq same)

end Utxo

namespace Selection

variable {p q : Progress}

theorem takeUntil_eq (quantity : Value → UInt64) (needed : UInt64)
    (selected : p.selected = q.selected) (total : p.total = q.total) (us : List Utxo) :
    takeUntil quantity needed p us = takeUntil quantity needed q us := by
  induction us generalizing p q with
  | nil => simp [takeUntil, selected, total]
  | cons u rest ih =>
    unfold takeUntil
    rw [total]
    split
    · exact ih (by rw [selected]) rfl
    · rw [selected]

theorem cover_eq_of_perm (quantity : Value → UInt64) (needed : UInt64)
    (nodup : (p.remaining.map Utxo.ref).Nodup) (selected : p.selected = q.selected)
    (total : p.total = q.total) (perm : p.remaining.Perm q.remaining) :
    cover p quantity needed = cover q quantity needed := by
  rw [cover, cover, Utxo.largestFirst_eq_of_perm nodup perm]
  exact takeUntil_eq quantity needed selected total _

variable (spent : List Utxo) {us vs : List Utxo} (nodup : (us.map Utxo.ref).Nodup)
  (perm : us.Perm vs) (target : Value)
include nodup perm

theorem coverAll_eq_of_perm :
    coverAll (start spent us) target = coverAll (start spent vs) target := by
  have first (quantity : Value → UInt64) (needed : UInt64) :
      cover (start spent us) quantity needed = cover (start spent vs) quantity needed :=
    cover_eq_of_perm quantity needed nodup rfl rfl perm
  unfold coverAll
  cases target.assets.entries with
  | nil => exact first _ _
  | cons e rest => rw [List.foldl_cons, List.foldl_cons, first]

theorem largestFirst_eq_of_perm :
    largestFirst spent us target = largestFirst spent vs target := by
  simp only [largestFirst, coverAll_eq_of_perm spent nodup perm]

end Selection

end ConwayTx
