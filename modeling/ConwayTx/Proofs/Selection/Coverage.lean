import ConwayTx.Proofs.Selection
import ConwayTx.Proofs.Selection.Order
import ConwayTx.Proofs.Value.Pruned
import Mathlib.Algebra.Order.BigOperators.Group.List
import Mathlib.Algebra.Order.Group.Nat

namespace ConwayTx

def Utxo.held (us : List Utxo) (c : Component) : Nat := (us.map (fun u => u.value.amount c)).sum

namespace Utxo

@[simp] theorem held_append (us vs : List Utxo) (c : Component) :
    held (us ++ vs) c = held us c + held vs c := by
  simp [held]

theorem held_perm {us vs : List Utxo} (h : us.Perm vs) (c : Component) : held us c = held vs c :=
  (h.map _).sum_eq

theorem held_le_of_subperm {us vs : List Utxo} (h : us.Subperm vs) (c : Component) :
    held us c ≤ held vs c := by
  obtain ⟨listed, perm, sublist⟩ := h
  rw [← held_perm perm]
  exact (sublist.map _).sum_le_sum (fun n _ => Nat.zero_le n)

theorem held_eq_zero {us : List Utxo} {c : Component} (h : ∀ u ∈ us, u.value.amount c = 0) :
    held us c = 0 := by
  apply List.sum_eq_zero
  intro n mem
  obtain ⟨u, there, rfl⟩ := List.mem_map.mp mem
  exact h u there

end Utxo

namespace Selection

variable {p q r : Progress} {taken more : List Utxo} {c : Component} {needed : Nat}

structure Progress.Advances (p q : Progress) (taken : List Utxo) : Prop where
  selected : q.selected = p.selected ++ taken
  split : (taken ++ q.remaining).Perm p.remaining
  total : ∀ c, q.total.amount c = min (p.total.amount c + Utxo.held taken c) (UInt64.size - 1)

def Progress.Settled (p : Progress) (c : Component) (needed : Nat) : Prop :=
  needed ≤ p.total.amount c ∨ ∀ u ∈ p.remaining, u.value.amount c = 0

namespace Progress.Advances

theorem refl (p : Progress) : p.Advances p [] := by
  refine ⟨(List.append_nil _).symm, List.Perm.refl _, fun c => ?_⟩
  have bound := p.total.amount_le c
  simp only [Utxo.held, List.map_nil, List.sum_nil]
  omega

theorem trans (h : p.Advances q taken) (k : q.Advances r more) : p.Advances r (taken ++ more) := by
  refine ⟨?_, ?_, fun c => ?_⟩
  · rw [k.selected, h.selected, List.append_assoc]
  · rw [List.append_assoc]
    exact (k.split.append_left taken).trans h.split
  · rw [k.total, h.total, Utxo.held_append]
    omega

theorem amount_le (h : p.Advances q taken) (c : Component) :
    p.total.amount c ≤ q.total.amount c := by
  have bound := p.total.amount_le c
  rw [h.total]
  omega

theorem settled (h : p.Advances q taken) (settled : p.Settled c needed) : q.Settled c needed := by
  rcases settled with reached | bare
  · exact .inl (Nat.le_trans reached (h.amount_le c))
  · refine .inr (fun u mem => bare u ?_)
    exact h.split.mem_iff.mp (List.mem_append_right _ mem)

end Progress.Advances

theorem takeUntil_advances (quantity : Value → UInt64) (least : UInt64) (p : Progress)
    (us : List Utxo) :
    ∃ taken, ({ p with remaining := us } : Progress).Advances (takeUntil quantity least p us)
      taken := by
  induction us generalizing p with
  | nil => exact ⟨[], .refl _⟩
  | cons u rest ih =>
    rw [takeUntil]
    split
    · let next : Progress := { p with selected := p.selected ++ [u], total := p.total + u.value }
      obtain ⟨taken, later⟩ := ih next
      have first : ({ p with remaining := u :: rest } : Progress).Advances
          { next with remaining := rest } [u] := by
        refine ⟨rfl, List.Perm.refl _, fun c => ?_⟩
        change (p.total + u.value).amount c = _
        rw [Value.amount_add]
        simp [Utxo.held]
      exact ⟨u :: taken, first.trans later⟩
    · exact ⟨[], .refl _⟩

theorem takeUntil_settled {quantity : Value → UInt64}
    (counts : ∀ v, (quantity v).toNat = v.amount c) (least : UInt64) (p : Progress)
    {us : List Utxo}
    (sorted : us.Pairwise (fun a b => b.value.amount c ≤ a.value.amount c)) :
    (takeUntil quantity least p us).Settled c least.toNat := by
  induction us generalizing p with
  | nil => exact .inr (fun _ mem => nomatch mem)
  | cons u rest ih =>
    rw [List.pairwise_cons] at sorted
    rw [takeUntil]
    split
    · exact ih _ sorted.2
    · rename_i stop
      rw [UInt64.lt_iff_toNat_lt, UInt64.lt_iff_toNat_lt, counts, counts, UInt64.toNat_zero] at stop
      by_cases reached : least.toNat ≤ p.total.amount c
      · exact .inl reached
      · have none : u.value.amount c = 0 := by omega
        refine .inr (fun v mem => ?_)
        rcases List.mem_cons.mp mem with rfl | later
        · exact none
        · exact Nat.le_zero.mp (none ▸ sorted.1 v later)

theorem largestFirst_sorted {quantity : Value → UInt64}
    (counts : ∀ v, (quantity v).toNat = v.amount c) (us : List Utxo) :
    (Utxo.largestFirst quantity us).Pairwise
      (fun a b => b.value.amount c ≤ a.value.amount c) := by
  rw [Utxo.largestFirst_eq_sortOn]
  refine (Ranked.sortOn_sorted _ us).imp ?_
  intro a b h
  rw [Utxo.lack_precedes_iff, not_or, counts, counts] at h
  exact Nat.not_lt.mp h.1

theorem cover_advances (p : Progress) (quantity : Value → UInt64) (least : UInt64) :
    ∃ taken, p.Advances (cover p quantity least) taken := by
  obtain ⟨taken, h⟩ := takeUntil_advances quantity least p (Utxo.largestFirst quantity p.remaining)
  exact ⟨taken, h.selected, h.split.trans (List.mergeSort_perm _ _), h.total⟩

theorem cover_settled {quantity : Value → UInt64} (counts : ∀ v, (quantity v).toNat = v.amount c)
    (p : Progress) (least : UInt64) : (cover p quantity least).Settled c least.toNat :=
  takeUntil_settled counts least p (largestFirst_sorted counts p.remaining)

def coverAssets (p : Progress) (es : List (AssetId × UInt64)) : Progress :=
  es.foldl (fun p e => cover p (·.quantity e.1) e.2) p

theorem coverAssets_advances (p : Progress) (es : List (AssetId × UInt64)) :
    ∃ taken, p.Advances (coverAssets p es) taken := by
  induction es generalizing p with
  | nil => exact ⟨[], .refl p⟩
  | cons e rest ih =>
    obtain ⟨taken, first⟩ := cover_advances p (·.quantity e.1) e.2
    obtain ⟨more, later⟩ := ih (cover p (·.quantity e.1) e.2)
    exact ⟨taken ++ more, first.trans later⟩

theorem coverAssets_settled {es : List (AssetId × UInt64)} {e : AssetId × UInt64} (mem : e ∈ es)
    (p : Progress) : (coverAssets p es).Settled (.asset e.1) e.2.toNat := by
  induction es generalizing p with
  | nil => cases mem
  | cons first rest ih =>
    rcases List.mem_cons.mp mem with rfl | later
    · obtain ⟨_, on⟩ := coverAssets_advances (cover p (·.quantity e.1) e.2) rest
      exact on.settled (cover_settled (fun _ => rfl) p e.2)
    · exact ih later _

theorem coverAll_advances (p : Progress) (target : Value) :
    ∃ taken, p.Advances (coverAll p target) taken := by
  obtain ⟨taken, assets⟩ := coverAssets_advances p target.assets.entries
  obtain ⟨more, lovelace⟩ :=
    cover_advances (coverAssets p target.assets.entries) (·.lovelace) target.lovelace
  exact ⟨taken ++ more, assets.trans lovelace⟩

theorem coverAll_settled (p : Progress) (target : Value) (c : Component) :
    (coverAll p target).Settled c (target.amount c) := by
  cases c with
  | lovelace => exact cover_settled (fun _ => rfl) _ target.lovelace
  | asset id =>
    rcases Assets.mem_entries_or target.assets id with mem | ⟨_, zero⟩
    · obtain ⟨_, on⟩ :=
        cover_advances (coverAssets p target.assets.entries) (·.lovelace) target.lovelace
      exact on.settled (coverAssets_settled mem p)
    · have nothing : target.quantity id = 0 := zero
      refine .inl ?_
      simp [Value.amount, nothing]

theorem coverAll_total (spent available : List Utxo) (target : Value) (c : Component) :
    (coverAll (start spent available) target).total.amount c =
      min (Utxo.held (spent ++ (coverAll (start spent available) target).selected) c)
        (UInt64.size - 1) := by
  obtain ⟨taken, reached⟩ := coverAll_advances (start spent available) target
  have first : (start spent available).total.amount c =
      min (Utxo.held spent c) (UInt64.size - 1) := Utxo.amount_total spent c
  have all : (coverAll (start spent available) target).selected = taken := reached.selected
  rw [reached.total, first, Utxo.held_append, all]
  omega

theorem coverAll_amount (spent available : List Utxo) (target : Value) (c : Component) :
    let total := (coverAll (start spent available) target).total.amount c
    let whole := Utxo.held (spent ++ available) c
    total ≤ whole ∧ (target.amount c ≤ total ∨ total = min whole (UInt64.size - 1)) := by
  have total := coverAll_total spent available target c
  have whole := Utxo.held_perm (coverAll_perm (start spent available) target) c
  change _ = Utxo.held available c at whole
  rw [Utxo.held_append] at total whole ⊢
  refine ⟨by omega, ?_⟩
  rcases coverAll_settled (start spent available) target c with enough | bare
  · exact .inl enough
  · rw [Utxo.held_eq_zero bare] at whole
    exact .inr (by omega)

theorem covers_iff_held (spent available : List Utxo) (target : Value) :
    (coverAll (start spent available) target).total.covers target = true ↔
      ∀ c, target.amount c ≤ Utxo.held (spent ++ available) c := by
  rw [Value.covers_iff]
  apply forall_congr'
  intro c
  obtain ⟨within, reached⟩ := coverAll_amount spent available target c
  have bound := target.amount_le c
  omega

section Chosen

variable {spent available : List Utxo} {target : Value} {s : Selection}

theorem selected_of_largestFirst (h : largestFirst spent available target = .ok s) :
    s.selected = (coverAll (start spent available) target).selected := by
  simp only [largestFirst] at h
  split at h
  · obtain rfl := Except.ok.inj h
    rfl
  · cases h

theorem le_held_of_largestFirst (h : largestFirst spent available target = .ok s) (c : Component) :
    target.amount c ≤ Utxo.held (spent ++ s.selected) c := by
  have total := coverAll_total spent available target c
  rw [← selected_of_largestFirst h] at total
  simp only [largestFirst] at h
  split at h
  · rename_i covered
    have reached := Value.covers_iff.mp covered c
    omega
  · cases h

end Chosen

/-- Selecting succeeds exactly when there is enough of everything. It then loses no output and
reaches the target, and else it tells what all outputs together lack. -/
theorem largestFirst_exact (spent available : List Utxo) (target : Value) :
    ((∃ s, largestFirst spent available target = .ok s) ↔
      ∀ c, target.amount c ≤ Utxo.held (spent ++ available) c) ∧
    (∀ s, largestFirst spent available target = .ok s →
      (s.selected ++ s.remaining).Perm available ∧
        ∀ c, target.amount c ≤ Utxo.held (spent ++ s.selected) c) ∧
    (∀ missing, largestFirst spent available target = .error missing →
      (∀ c, missing.amount c = target.amount c - Utxo.held (spent ++ available) c) ∧
        missing.assets.Pruned) := by
  refine ⟨?_, ?_, ?_⟩
  · rw [← covers_iff_held]
    constructor
    · rintro ⟨s, h⟩
      by_contra short
      simp [largestFirst, short] at h
    · intro covered
      exact ⟨_, if_pos covered⟩
  · intro s h
    refine ⟨largestFirst_perm h, fun c => ?_⟩
    simp only [largestFirst] at h
    split at h
    · rename_i covered
      obtain rfl := Except.ok.inj h
      apply Nat.le_trans (Value.covers_iff.mp covered c)
      rw [coverAll_total]
      exact Nat.min_le_left _ _
    · cases h
  · intro missing h
    simp only [largestFirst] at h
    split at h
    · cases h
    · obtain rfl := Except.error.inj h
      refine ⟨fun c => ?_, Assets.prune_pruned _⟩
      obtain ⟨within, reached⟩ := coverAll_amount spent available target c
      have bound := target.amount_le c
      rw [Value.amount_saturatingSub]
      omega

end Selection

namespace Sample

def note (index : UInt16) (v : Value) : Utxo :=
  ⟨⟨⟨List.replicate 32 1, List.length_replicate⟩, index⟩, { address := .none, value := v }⟩

def ticket : AssetId := ⟨⟨List.replicate 28 2, List.length_replicate⟩, ⟨[], by decide⟩⟩

def tickets (lovelace count : UInt64) : Value := (Value.ofLovelace lovelace).withAsset ticket count

def pinned : List Utxo := [note 0 (.ofLovelace 5)]

def offered : List Utxo := [note 1 (tickets 2 3), note 2 (tickets 2 4), note 3 (.ofLovelace 1)]

end Sample

open Sample in
theorem Selection.largestFirst_exact_tickets :
    (∃ s, largestFirst pinned offered (tickets 9 7) = .ok s ∧
      (s.selected ++ s.remaining).Perm offered ∧
      ∀ c, (tickets 9 7).amount c ≤ Utxo.held (pinned ++ s.selected) c) ∧
    ∃ missing, largestFirst pinned offered (tickets 11 7) = .error missing ∧
      missing.amount .lovelace = 1 ∧ missing.amount (.asset ticket) = 0 ∧
      missing.assets.Pruned := by
  constructor
  · have enough : ∀ c, (tickets 9 7).amount c ≤ Utxo.held (pinned ++ offered) c := by
      intro c
      cases c with
      | lovelace => decide
      | asset id =>
        by_cases same : id = ticket
        · subst same
          decide
        · simp [tickets, same]
    obtain ⟨s, h⟩ := (largestFirst_exact pinned offered (tickets 9 7)).1.mpr enough
    exact ⟨s, h, (largestFirst_exact _ _ _).2.1 s h⟩
  · obtain ⟨reached, _, lacking⟩ := largestFirst_exact pinned offered (tickets 11 7)
    cases h : largestFirst pinned offered (tickets 11 7) with
    | ok s => exact absurd (reached.mp ⟨s, h⟩ .lovelace) (by decide)
    | error missing =>
      obtain ⟨amounts, pruned⟩ := lacking missing h
      exact ⟨missing, rfl, by rw [amounts]; decide, by rw [amounts]; decide, pruned⟩

end ConwayTx
