import ConwayTx.Proofs.Balance.Progress
import Mathlib.Logic.Relation

namespace ConwayTx

namespace Selection

variable {quantity : Value → UInt64} {needed more : UInt64}

theorem takeUntil_selected (quantity : Value → UInt64) (needed : UInt64) (p : Progress)
    (us : List Utxo) : p.selected <+: (takeUntil quantity needed p us).selected := by
  obtain ⟨taken, advances⟩ := takeUntil_advances quantity needed p us
  exact ⟨taken, advances.selected.symm⟩

theorem takeUntil_prefix (le : needed ≤ more) (p : Progress) (us : List Utxo) :
    (takeUntil quantity needed p us).selected <+: (takeUntil quantity more p us).selected := by
  induction us generalizing p with
  | nil => exact List.prefix_refl _
  | cons u rest ih =>
    by_cases short : quantity p.total < needed ∧ 0 < quantity u.value
    · rw [takeUntil, if_pos short, takeUntil, if_pos ⟨UInt64.lt_of_lt_of_le short.1 le, short.2⟩]
      exact ih _
    · rw [takeUntil, if_neg short]
      exact takeUntil_selected quantity more p (u :: rest)

theorem coverAll_prefix {target raised : Value} (assets : raised.assets = target.assets)
    (le : target.lovelace ≤ raised.lovelace) (p : Progress) :
    (coverAll p target).selected <+: (coverAll p raised).selected := by
  unfold coverAll
  rw [assets]
  exact takeUntil_prefix le _ _

theorem largestFirst_prefix {spent available : List Utxo} {target raised : Value}
    {s s' : Selection} (assets : raised.assets = target.assets)
    (le : target.lovelace ≤ raised.lovelace) (h : largestFirst spent available target = .ok s)
    (h' : largestFirst spent available raised = .ok s') : s.selected <+: s'.selected := by
  rw [selected_of_largestFirst h, selected_of_largestFirst h']
  exact coverAll_prefix assets le _

end Selection

namespace Balance

variable {s : Setup} {d : Draft} {pools : Pools} {plan : Plan} {state next later : State}

def Leads (s : Setup) (d : Draft) (pools : Pools) (plan : Plan) (now next : State) : Prop :=
  round s d pools plan now = .ok (.again next)

abbrev Follows (s : Setup) (d : Draft) (pools : Pools) (plan : Plan) : State → State → Prop :=
  Relation.ReflTransGen (Leads s d pools plan)

theorem Leads.le (h : Leads s d pools plan state next) :
    state.fee ≤ next.fee ∧ state.changeExtra ≤ next.changeExtra := by
  obtain ⟨r⟩ := exists_draw_of_ok h
  by_cases short : r.Short
  · rw [Leads, short.round_eq] at h
    obtain ⟨extra, added, made⟩ := Except.bind_eq_ok.mp h
    cases made
    have sum := UInt64.checkedAdd_eq_some_iff.mp (orOverflow_eq_ok.mp added)
    refine ⟨UInt64.le_refl _, UInt64.le_iff_toNat_le.mpr ?_⟩
    dsimp only
    omega
  · obtain ⟨o, same⟩ := r.exists_offer short d pools
    obtain ⟨fee, extra⟩ := attempt_again_ok ((same s.evaluate).symm.trans h)
    rw [extra]
    exact ⟨UInt64.le_of_lt fee, UInt64.le_refl _⟩

theorem Follows.le (h : Follows s d pools plan state later) :
    state.fee ≤ later.fee ∧ state.changeExtra ≤ later.changeExtra := by
  induction h with
  | refl => exact ⟨UInt64.le_refl _, UInt64.le_refl _⟩
  | tail _ last ih => exact ⟨UInt64.le_trans ih.1 last.le.1, UInt64.le_trans ih.2 last.le.2⟩

theorem Plan.spend_assets {fee : UInt64} {v : Value} (h : plan.spend fee = .ok v) :
    v.assets = plan.committed.assets.prune := by
  unfold Plan.spend at h
  split at h
  · rename_i added
    cases h
    obtain ⟨lovelace, _, added⟩ := Option.bind_eq_some_iff.mp added
    cases added
    rfl
  · cases h

theorem Draw.target_assets (r : Draw s plan state) (r' : Draw s plan later) :
    (plan.target r'.spend later.changeExtra).assets =
      (plan.target r.spend state.changeExtra).assets := by
  have same : r'.spend.assets = r.spend.assets :=
    (Plan.spend_assets r'.spend_eq).trans (Plan.spend_assets r.spend_eq).symm
  change Assets.prune (OrdMap.mapValues _ (Assets.prune r'.spend.assets)) =
    Assets.prune (OrdMap.mapValues _ (Assets.prune r.spend.assets))
  rw [same]

theorem Draw.target_lovelace_le (r : Draw s plan state) (r' : Draw s plan later)
    (fee : state.fee ≤ later.fee) (extra : state.changeExtra ≤ later.changeExtra) :
    (plan.target r.spend state.changeExtra).lovelace ≤
      (plan.target r'.spend later.changeExtra).lovelace := by
  have before := plan.amount_target_lovelace r.spend state.changeExtra
  have after := plan.amount_target_lovelace r'.spend later.changeExtra
  have spent : r.spend.lovelace.toNat = plan.committed.amount .lovelace + state.fee.toNat :=
    Plan.amount_spend r.spend_eq .lovelace
  have spent' : r'.spend.lovelace.toNat = plan.committed.amount .lovelace + later.fee.toNat :=
    Plan.amount_spend r'.spend_eq .lovelace
  rw [UInt64.le_iff_toNat_le] at fee extra ⊢
  change (plan.target r.spend state.changeExtra).amount .lovelace ≤
    (plan.target r'.spend later.changeExtra).amount .lovelace
  omega

/-- Raising the lovelace of a target only adds to what is selected. So it is from round to round of
a run, where neither the fee nor what is asked for on top ever falls: where anything was pinned or
selected, all of its inputs are spent in later rounds as well. -/
theorem inputs_grow :
    (∀ {spent available : List Utxo} {target raised : Value} {chosen further : Selection},
      raised.assets = target.assets → target.lovelace ≤ raised.lovelace →
      Selection.largestFirst spent available target = .ok chosen →
      Selection.largestFirst spent available raised = .ok further →
        chosen.selected <+: further.selected) ∧
    ∀ {s d pools plan state later}, s.select = Selection.largestFirst →
      Follows s d pools plan state later →
      ∀ (r : Draw s plan state) (r' : Draw s plan later), ∃ chosen further,
        Selection.largestFirst plan.pinned plan.candidates
          (plan.target r.spend state.changeExtra) = .ok chosen ∧
        Selection.largestFirst plan.pinned plan.candidates
          (plan.target r'.spend later.changeExtra) = .ok further ∧
        chosen.selected <+: further.selected ∧
        (plan.pinned ++ chosen.selected ≠ [] →
          ∃ more, r'.inputs.Perm (r.inputs ++ more)) := by
  refine ⟨Selection.largestFirst_prefix, ?_⟩
  intro s d pools plan state later largest follows r r'
  obtain ⟨chosen, selection, funded⟩ := plan.fund_cases (largest ▸ r.funded)
  obtain ⟨further, selection', funded'⟩ := plan.fund_cases (largest ▸ r'.funded)
  have grown := Selection.largestFirst_prefix (r.target_assets r')
    (r.target_lovelace_le r' follows.le.1 follows.le.2) selection selection'
  refine ⟨chosen, further, selection, selection', grown, fun something => ?_⟩
  obtain ⟨more, added⟩ := grown
  have inputs : r.inputs = Utxo.sortByRef (plan.pinned ++ chosen.selected) :=
    (funded.resolve_right (fun none => something none.1)).2
  have something' : plan.pinned ++ further.selected ≠ [] := by
    rw [← added, ← List.append_assoc]
    exact List.append_ne_nil_of_left_ne_nil something more
  have inputs' : r'.inputs = Utxo.sortByRef (plan.pinned ++ further.selected) :=
    (funded'.resolve_right (fun none => something' none.1)).2
  refine ⟨more, ?_⟩
  rw [inputs, inputs', ← added, ← List.append_assoc]
  exact (Ranked.sortOn_perm _ _).trans ((Ranked.sortOn_perm _ _).symm.append_right more)

end Balance

namespace Sample

def growing : Draft where
  outputs := [{ address := keyAddress 2, value := .ofLovelace 2000000 }]
  changeAddress := some (keyAddress 3)

def growingPools : Pools where
  available := some
    [utxo 0 (keyAddress 1) (.ofLovelace 2000000), utxo 1 (keyAddress 1) (.ofLovelace 2100000)]

def drawn (plan : Balance.Plan) (state : Balance.State) :
    Except BuildError (List UInt16 × Bool) := do
  let spend ← plan.spend state.fee
  let inputs ← plan.fund setup.select (plan.target spend state.changeExtra)
  return (inputs.map (fun u => u.ref.index), (plan.target spend state.changeExtra).isZero)

theorem drawn_eq {plan : Balance.Plan} {state : Balance.State}
    (r : Balance.Draw setup plan state) : drawn plan state =
      .ok (r.inputs.map (fun u => u.ref.index),
        (plan.target r.spend state.changeExtra).isZero) := by
  rw [drawn, r.spend_eq]
  change (plan.fund setup.select (plan.target r.spend state.changeExtra) >>= _) = _
  rw [r.funded]
  rfl

set_option maxRecDepth 20000 in
theorem growing_passes :
    (Balance.plan setup.params growing growingPools).satisfies (fun plan =>
      (drawn plan { fee := plan.minimumFee }).satisfies (· == ([1], false)) &&
      (Balance.round setup growing growingPools plan { fee := plan.minimumFee }).satisfies
        (fun
          | .done _ => false
          | .again next => (drawn plan next).satisfies (· == ([0, 1], false)) &&
            (Balance.round setup growing growingPools plan next).satisfies (fun _ => true))) =
      true := by
  cbv

theorem tickets_pass :
    ((Selection.largestFirst pinned offered (tickets 6 7)).satisfies
        (fun s => s.selected.length == 2) &&
      (Selection.largestFirst pinned offered (tickets 10 7)).satisfies
        (fun s => s.selected.length == 3)) = true := by
  cbv

end Sample

open Sample in
theorem Balance.inputs_grow_growing :
    (∃ chosen further, Selection.largestFirst pinned offered (tickets 6 7) = .ok chosen ∧
      Selection.largestFirst pinned offered (tickets 10 7) = .ok further ∧
      chosen.selected.length = 2 ∧ further.selected.length = 3 ∧
      chosen.selected <+: further.selected) ∧
    ∃ plan next, Balance.plan setup.params growing growingPools = .ok plan ∧
      Leads setup growing growingPools plan { fee := plan.minimumFee } next ∧
      ∃ (r : Draw setup plan { fee := plan.minimumFee }) (r' : Draw setup plan next),
        r.inputs.map (fun u => u.ref.index) = [1] ∧ r'.inputs.map (fun u => u.ref.index) = [0, 1] ∧
        ∃ more, r'.inputs.Perm (r.inputs ++ more) := by
  constructor
  · obtain ⟨two, three⟩ := Bool.and_eq_true_iff.mp tickets_pass
    obtain ⟨chosen, selection, two⟩ := Except.satisfies_iff.mp two
    obtain ⟨further, selection', three⟩ := Except.satisfies_iff.mp three
    exact ⟨chosen, further, selection, selection', beq_iff_eq.mp two, beq_iff_eq.mp three,
      inputs_grow.1 (by decide) (by decide) selection selection'⟩
  · obtain ⟨plan, planned, passes⟩ := Except.satisfies_iff.mp growing_passes
    obtain ⟨first, passes⟩ := Bool.and_eq_true_iff.mp passes
    obtain ⟨outcome, ran, passes⟩ := Except.satisfies_iff.mp passes
    cases outcome with
    | done tx => cases passes
    | again next =>
      obtain ⟨second, passes⟩ := Bool.and_eq_true_iff.mp passes
      obtain ⟨_, ran', _⟩ := Except.satisfies_iff.mp passes
      obtain ⟨r⟩ := exists_draw_of_ok ran
      obtain ⟨r'⟩ := exists_draw_of_ok ran'
      rw [drawn_eq] at first second
      simp only [Except.satisfies, beq_iff_eq, Prod.mk.injEq] at first second
      have needed : r.Needed := .inr first.2
      obtain ⟨_, selection, something, _⟩ := needed.exists_chosen rfl
      obtain ⟨chosen, _, selection', _, _, kept⟩ := inputs_grow.2 rfl (.single ran) r r'
      obtain rfl := Except.ok.inj (selection.symm.trans selection')
      exact ⟨plan, next, planned, ran, r, r', first.1, second.1, kept something⟩

end ConwayTx
