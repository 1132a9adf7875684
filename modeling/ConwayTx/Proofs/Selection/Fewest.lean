import ConwayTx.Proofs.Except
import ConwayTx.Proofs.Selection.Coverage
import Mathlib

namespace ConwayTx

def Value.OnlyOf (c : Component) (v : Value) : Prop :=
  0 < v.amount c ∧ ∀ other, other ≠ c → v.amount other = 0

namespace Utxo

variable {us front rest : List Utxo} {c : Component}

theorem held_le_of_bound (taken : us.Subperm (front ++ rest)) (fewer : us.length ≤ front.length)
    {bound : Nat} (above : ∀ u ∈ front, bound ≤ u.value.amount c)
    (below : ∀ u ∈ rest, u.value.amount c ≤ bound) : held us c ≤ held front c := by
  obtain ⟨vs, perm, sublist⟩ := taken
  obtain ⟨shared, others, rfl, inFront, inRest⟩ := List.sublist_append_iff.mp sublist
  obtain ⟨left, parts⟩ := inFront.exists_perm_append
  have lengths : others.length ≤ left.length := by
    have whole := perm.length_eq
    have front := parts.length_eq
    rw [List.length_append] at whole front
    omega
  have small : held others c ≤ others.length * bound := by
    have sum := List.sum_le_card_nsmul (others.map (fun u => u.value.amount c)) bound
      (List.forall_mem_map.mpr (fun u mem => below u (inRest.subset mem)))
    rwa [List.length_map] at sum
  have large : left.length * bound ≤ held left c := by
    have sum := List.card_nsmul_le_sum (left.map (fun u => u.value.amount c)) bound
      (List.forall_mem_map.mpr (fun u mem =>
        above u (parts.mem_iff.mpr (List.mem_append_right _ mem))))
    rwa [List.length_map] at sum
  calc
    held us c = held shared c + held others c := by rw [← held_perm perm, held_append]
    _ ≤ held shared c + left.length * bound :=
      Nat.add_le_add_left (small.trans (Nat.mul_le_mul_right _ lengths)) _
    _ ≤ held shared c + held left c := Nat.add_le_add_left large _
    _ = held front c := by rw [held_perm parts, held_append]

theorem held_le_front (sorted : front.Pairwise (fun u v => v.value.amount c ≤ u.value.amount c))
    (below : ∀ u ∈ front, ∀ v ∈ rest, v.value.amount c ≤ u.value.amount c)
    (taken : us.Subperm (front ++ rest)) (fewer : us.length ≤ front.length) :
    held us c ≤ held front c := by
  rcases List.eq_nil_or_concat' front with rfl | ⟨before, last, rfl⟩
  · rw [List.eq_nil_of_length_eq_zero (Nat.le_zero.mp fewer)]
  · have there : last ∈ before ++ [last] := List.mem_append_right _ List.mem_cons_self
    refine held_le_of_bound taken fewer (fun u mem => ?_) (below last there)
    rcases List.mem_append.mp mem with earlier | same
    · exact (List.pairwise_append.mp sorted).2.2 u earlier last List.mem_cons_self
    · rw [List.mem_singleton.mp same]

end Utxo

namespace Selection

variable {spent available us : List Utxo} {target : Value} {c other : Component} {needed : Nat}
  {p : Progress} {quantity : Value → UInt64} {least : UInt64}

/-- What is selected holds the largest amounts of a component, in descending order, and without its
last output it was not enough. -/
structure Frugal (spent : List Utxo) (c : Component) (needed : Nat) (p : Progress) : Prop where
  total : p.total.amount c = min (Utxo.held (spent ++ p.selected) c) (UInt64.size - 1)
  sorted : p.selected.Pairwise (fun u v => v.value.amount c ≤ u.value.amount c)
  largest : ∀ u ∈ p.selected, ∀ v ∈ p.remaining, v.value.amount c ≤ u.value.amount c
  short : ∀ front, front <+: p.selected → front ≠ p.selected →
    Utxo.held (spent ++ front) c < needed

theorem Frugal.start (spent available : List Utxo) (c : Component) (needed : Nat) :
    Frugal spent c needed (start spent available) where
  total := by
    rw [Selection.start, List.append_nil]
    exact Utxo.amount_total spent c
  sorted := List.Pairwise.nil
  largest := fun _ mem => nomatch mem
  short := fun _ front ne => absurd (List.prefix_nil.mp front) ne

theorem Frugal.relist (frugal : Frugal spent c needed p) (perm : us.Perm p.remaining) :
    Frugal spent c needed { p with remaining := us } :=
  ⟨frugal.total, frugal.sorted, fun u here v there => frugal.largest u here v (perm.subset there),
    frugal.short⟩

theorem Frugal.take (frugal : Frugal spent c needed p) {u : Utxo} {rest : List Utxo}
    (left : p.remaining = u :: rest) (below : ∀ v ∈ rest, v.value.amount c ≤ u.value.amount c)
    (short : p.total.amount c < needed) (fits : needed ≤ UInt64.size - 1) :
    Frugal spent c needed
      { selected := p.selected ++ [u], remaining := rest, total := p.total + u.value } where
  total := by
    have before := frugal.total
    have one : Utxo.held [u] c = u.value.amount c := Nat.add_zero _
    rw [Value.amount_add, ← List.append_assoc, Utxo.held_append _ [u], one]
    omega
  sorted := by
    refine List.pairwise_append.mpr ⟨frugal.sorted, List.pairwise_singleton _ _, ?_⟩
    intro v mem w only
    rw [List.mem_singleton.mp only]
    exact frugal.largest v mem u (left ▸ List.mem_cons_self)
  largest := by
    intro v mem w later
    rcases List.mem_append.mp mem with before | only
    · exact frugal.largest v before w (left ▸ List.mem_cons_of_mem _ later)
    · rw [List.mem_singleton.mp only]
      exact below w later
  short := by
    intro front within ne
    have before := frugal.total
    rcases List.prefix_concat_iff.mp within with whole | earlier
    · exact absurd whole ne
    · by_cases all : front = p.selected
      · subst all
        omega
      · exact frugal.short front earlier all

theorem takeUntil_frugal (counts : ∀ v, (quantity v).toNat = v.amount c)
    (sorted : us.Pairwise (fun u v => v.value.amount c ≤ u.value.amount c))
    (frugal : Frugal spent c least.toNat { p with remaining := us }) :
    Frugal spent c least.toNat (takeUntil quantity least p us) := by
  induction us generalizing p with
  | nil => exact frugal
  | cons u rest ih =>
    rw [List.pairwise_cons] at sorted
    rw [takeUntil]
    split
    · rename_i more
      have short := UInt64.lt_iff_toNat_lt.mp more.1
      rw [counts] at short
      exact ih sorted.2 (frugal.take rfl sorted.1 short (Nat.le_sub_one_of_lt least.toNat_lt_size))
    · exact frugal

theorem takeUntil_zero (quantity : Value → UInt64) (p : Progress) (us : List Utxo) :
    takeUntil quantity 0 p us = { p with remaining := us } := by
  cases us with
  | nil => rfl
  | cons u rest =>
    have enough : ¬ (quantity p.total < 0 ∧ 0 < quantity u.value) := fun h => by simp at h
    rw [takeUntil, if_neg enough]

theorem cover_frugal (counts : ∀ v, (quantity v).toNat = v.amount other)
    (asks : other = c ∧ least.toNat = needed ∨ least = 0) (frugal : Frugal spent c needed p) :
    Frugal spent c needed (cover p quantity least) := by
  have relisted := frugal.relist (List.mergeSort_perm p.remaining (Utxo.atLeast quantity))
  rcases asks with ⟨rfl, rfl⟩ | rfl
  · exact takeUntil_frugal counts (largestFirst_sorted counts _) relisted
  · rw [cover, takeUntil_zero]
    exact relisted

theorem coverAssets_frugal {es : List (AssetId × UInt64)}
    (asks : ∀ e ∈ es, Component.asset e.1 = c ∧ e.2.toNat = needed ∨ e.2 = 0)
    (frugal : Frugal spent c needed p) : Frugal spent c needed (coverAssets p es) := by
  induction es generalizing p with
  | nil => exact frugal
  | cons e rest ih =>
    rw [List.forall_mem_cons] at asks
    exact ih asks.2 (cover_frugal (fun _ => rfl) asks.1 frugal)

theorem coverAll_frugal (only : target.OnlyOf c) (frugal : Frugal spent c (target.amount c) p) :
    Frugal spent c (target.amount c) (coverAll p target) := by
  have asks (other : Component) (n : UInt64) (same : n.toNat = target.amount other) :
      other = c ∧ n.toNat = target.amount c ∨ n = 0 := by
    by_cases one : other = c
    · exact .inl ⟨one, one ▸ same⟩
    · rw [only.2 other one] at same
      exact .inr (UInt64.toNat_inj.mp same)
  refine cover_frugal (fun _ => rfl) (asks .lovelace _ rfl) (coverAssets_frugal ?_ frugal)
  intro e mem
  exact asks (.asset e.1) e.2 (congrArg UInt64.toNat (Assets.quantity_of_mem mem).symm)

/-- For a target of one component, every choice that reaches it takes at least as many outputs as
are selected, and what is selected does not reach it any sooner. -/
theorem largestFirst_fewest (only : target.OnlyOf c) {s : Selection}
    (h : largestFirst spent available target = .ok s) :
    (∀ us, us.Subperm available → (∀ c, target.amount c ≤ Utxo.held (spent ++ us) c) →
      s.selected.length ≤ us.length) ∧
    (∀ front, front <+: s.selected → front ≠ s.selected →
      ¬ ∀ c, target.amount c ≤ Utxo.held (spent ++ front) c) := by
  have frugal := coverAll_frugal only (Frugal.start spent available c (target.amount c))
  have perm := coverAll_perm (start spent available) target
  rw [selected_of_largestFirst h]
  generalize coverAll (start spent available) target = p at frugal perm
  constructor
  · intro us taken covered
    by_contra fewer
    have fewer := Nat.lt_of_not_le fewer
    have parts := List.take_append_drop us.length p.selected
    have size : (p.selected.take us.length).length = us.length :=
      List.length_take_of_le (Nat.le_of_lt fewer)
    have short := frugal.short (p.selected.take us.length) (List.take_prefix _ _)
      (fun same => by rw [same] at size; omega)
    have sorted := frugal.sorted
    rw [← parts] at sorted
    obtain ⟨front, _, later⟩ := List.pairwise_append.mp sorted
    have most : Utxo.held us c ≤ Utxo.held (p.selected.take us.length) c := by
      have within : us.Subperm
          (p.selected.take us.length ++ (p.selected.drop us.length ++ p.remaining)) := by
        rw [← List.append_assoc, parts]
        exact taken.trans perm.symm.subperm
      refine Utxo.held_le_front front (fun u here v there => ?_) within (Nat.le_of_eq size.symm)
      rcases List.mem_append.mp there with taken | left
      · exact later u here v taken
      · exact frugal.largest u (List.mem_of_mem_take here) v left
    have covered := covered c
    rw [Utxo.held_append] at covered short
    omega
  · intro front within ne covered
    exact Nat.not_le.mpr (frugal.short front within ne) (covered c)

end Selection

namespace Sample

def handful : List Utxo :=
  [note 1 (.ofLovelace 4), note 2 (.ofLovelace 9), note 3 (.ofLovelace 6), note 4 (.ofLovelace 1)]

theorem handful_onlyOf : (Value.ofLovelace 19).OnlyOf .lovelace := by
  refine ⟨by decide, fun other ne => ?_⟩
  cases other with
  | lovelace => exact absurd rfl ne
  | asset id => exact Value.amount_ofLovelace_asset 19 id

theorem handful_passes :
    (Selection.largestFirst pinned handful (.ofLovelace 19)).satisfies (fun s =>
      s.selected.map (fun u => u.value.lovelace) == [9, 6]) = true := by
  cbv

end Sample

open Sample in
theorem Selection.largestFirst_fewest_handful :
    ∃ s, largestFirst pinned handful (.ofLovelace 19) = .ok s ∧
      s.selected.map (fun u => u.value.lovelace) = [9, 6] ∧
      (∀ us, us.Subperm handful →
        (∀ c, (Value.ofLovelace 19).amount c ≤ Utxo.held (pinned ++ us) c) → 2 ≤ us.length) ∧
      ¬ ∀ c, (Value.ofLovelace 19).amount c ≤ Utxo.held (pinned ++ s.selected.take 1) c := by
  obtain ⟨s, chosen, passes⟩ := Except.satisfies_iff.mp handful_passes
  have amounts : s.selected.map (fun u => u.value.lovelace) = [9, 6] := beq_iff_eq.mp passes
  have two : s.selected.length = 2 := by simpa using congrArg List.length amounts
  obtain ⟨fewest, sooner⟩ := largestFirst_fewest handful_onlyOf chosen
  rw [two] at fewest
  refine ⟨s, chosen, amounts, fewest, sooner _ (List.take_prefix 1 _) (fun same => ?_)⟩
  have one := congrArg List.length same
  rw [List.length_take, two] at one
  cases one

end ConwayTx
