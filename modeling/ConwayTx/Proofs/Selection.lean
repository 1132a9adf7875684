import ConwayTx.Selection
import ConwayTx.Proofs.Value
import Mathlib.Data.List.Perm.Subperm

namespace ConwayTx

theorem Utxo.amount_total (us : List Utxo) (c : Component) :
    (Utxo.total us).amount c = min (us.map (fun u => u.value.amount c)).sum (UInt64.size - 1) := by
  rw [Utxo.total, Value.amount_sum, List.map_map]
  rfl

/-- Selects only what is on offer, and no output more often than it is offered. -/
def Selector.Lawful (select : Selector) : Prop :=
  ∀ spent available target s, select spent available target = .ok s →
    s.selected.Subperm available

namespace Selection

theorem takeUntil_perm (quantity : Value → UInt64) (needed : UInt64) (p : Progress)
    (us : List Utxo) :
    ((takeUntil quantity needed p us).selected ++ (takeUntil quantity needed p us).remaining).Perm
      (p.selected ++ us) := by
  induction us generalizing p with
  | nil => simp [takeUntil]
  | cons u rest ih =>
    unfold takeUntil
    split
    · refine (ih _).trans ?_
      simp
    · exact List.Perm.refl _

theorem cover_perm (p : Progress) (quantity : Value → UInt64) (needed : UInt64) :
    ((cover p quantity needed).selected ++ (cover p quantity needed).remaining).Perm
      (p.selected ++ p.remaining) :=
  (takeUntil_perm _ _ _ _).trans ((List.mergeSort_perm _ _).append_left _)

theorem coverAll_perm (p : Progress) (target : Value) :
    ((coverAll p target).selected ++ (coverAll p target).remaining).Perm
      (p.selected ++ p.remaining) := by
  unfold coverAll
  refine (cover_perm _ _ _).trans ?_
  induction target.assets.entries generalizing p with
  | nil => exact List.Perm.refl _
  | cons e rest ih => exact (ih _).trans (cover_perm _ _ _)

theorem largestFirst_perm {spent available : List Utxo} {target : Value} {s : Selection}
    (h : largestFirst spent available target = .ok s) :
    (s.selected ++ s.remaining).Perm available := by
  simp only [largestFirst] at h
  split at h
  · obtain rfl := Except.ok.inj h
    refine ((Ranked.sortOn_perm _ _).append_left _).trans ?_
    simpa [start] using coverAll_perm (start spent available) target
  · cases h

theorem largestFirst_lawful : Selector.Lawful largestFirst := by
  intro spent available target s h
  exact (List.sublist_append_left _ _).subperm.trans (largestFirst_perm h).subperm

end Selection

end ConwayTx
