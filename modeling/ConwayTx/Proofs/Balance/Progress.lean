import ConwayTx.Proofs.Balance.Conservation
import ConwayTx.Proofs.Balance.Draws
/-!
Rounds whose change falls short of lovelace. What is missing is asked for on top of what has to be
paid for, whether or not the inputs left a surplus over that; so a round moves on only from where
the surplus ends, and until then it draws the same inputs again.
-/

namespace ConwayTx

namespace Selection

variable {quantity : Value → UInt64} {needed more : UInt64}

theorem takeUntil_of_reached (le : needed ≤ more) (p : Progress) (us : List Utxo)
    (reached : more ≤ quantity (takeUntil quantity needed p us).total) :
    takeUntil quantity more p us = takeUntil quantity needed p us := by
  induction us generalizing p with
  | nil => rfl
  | cons u rest ih =>
    by_cases short : quantity p.total < needed ∧ 0 < quantity u.value
    · rw [takeUntil, if_pos short] at reached
      rw [takeUntil, if_pos ⟨UInt64.lt_of_lt_of_le short.1 le, short.2⟩, takeUntil, if_pos short]
      exact ih _ reached
    · rw [takeUntil, if_neg short] at reached
      have enough : ¬ (quantity p.total < more ∧ 0 < quantity u.value) :=
        fun still => UInt64.not_le.mpr still.1 reached
      rw [takeUntil, if_neg enough, takeUntil, if_neg short]

theorem coverAll_of_reached {p : Progress} {target raised : Value}
    (assets : raised.assets = target.assets) (le : target.lovelace ≤ raised.lovelace)
    (reached : raised.lovelace ≤ (coverAll p target).total.lovelace) :
    coverAll p raised = coverAll p target := by
  unfold coverAll at reached ⊢
  rw [assets]
  exact takeUntil_of_reached le _ _ reached

theorem largestFirst_of_reached {spent available : List Utxo} {target raised : Value}
    {chosen : Selection} (h : largestFirst spent available target = .ok chosen)
    (assets : raised.assets = target.assets) (le : target.lovelace ≤ raised.lovelace)
    (reached : raised.amount .lovelace ≤ (Utxo.total (spent ++ chosen.selected)).amount .lovelace) :
    largestFirst spent available raised = .ok chosen := by
  have total := coverAll_total spent available target .lovelace
  rw [← selected_of_largestFirst h, Utxo.held, ← Utxo.amount_total] at total
  rw [← total] at reached
  have same := coverAll_of_reached (p := start spent available) assets le
    (UInt64.le_iff_toNat_le.mpr reached)
  simp only [largestFirst] at h ⊢
  rw [same]
  split at h
  · rename_i covered
    rw [if_pos, h]
    rw [Value.covers_iff] at covered ⊢
    intro c
    cases c with
    | lovelace => exact reached
    | asset id =>
      have there := covered (.asset id)
      rwa [Value.amount, Value.quantity, ← assets] at there
  · cases h

end Selection

namespace Balance

variable {s : Setup} {d : Draft} {pools : Pools} {plan : Plan} {state next : State}

theorem Plan.amount_target_lovelace (plan : Plan) (spend : Value) (extra : UInt64) :
    (plan.target spend extra).amount .lovelace =
      min (spend.lovelace.toNat + extra.toNat) (UInt64.size - 1) -
        plan.implicit.lovelace.toNat := by
  rw [target, Value.amount_saturatingSub, Value.amount_add, Value.amount_ofLovelace_lovelace]
  rfl

theorem Plan.target_assets (plan : Plan) (spend : Value) (extra more : UInt64) :
    (plan.target spend more).assets = (plan.target spend extra).assets := rfl

namespace Draw

instance : Subsingleton (Draw s plan state) where
  allEq a b := by
    obtain ⟨spend, inputs, rest, spend_eq, funded, rest_eq⟩ := a
    obtain ⟨spend', inputs', rest', spend_eq', funded', rest_eq'⟩ := b
    obtain rfl := Except.ok.inj (spend_eq.symm.trans spend_eq')
    obtain rfl := Except.ok.inj (funded.symm.trans funded')
    obtain rfl := Option.some.inj (rest_eq.symm.trans rest_eq')
    rfl

def room (r : Draw s plan state) (extra : UInt64) : Nat :=
  min extra.toNat (UInt64.size - 1 - r.spend.lovelace.toNat)

/-- Inputs are drawn for a target or because they are pinned, and not only because there has to be
one. -/
def Needed (r : Draw s plan state) : Prop :=
  plan.pinned ≠ [] ∨ (plan.target r.spend state.changeExtra).isZero = false

instance (r : Draw s plan state) : Decidable r.Needed :=
  have : Decidable (plan.pinned = []) := decidable_of_iff _ List.isEmpty_iff
  inferInstanceAs (Decidable (_ ∨ _))

theorem Needed.exists_chosen (largest : s.select = Selection.largestFirst)
    {r : Draw s plan state} (needed : r.Needed) :
    ∃ chosen, Selection.largestFirst plan.pinned plan.candidates
        (plan.target r.spend state.changeExtra) = .ok chosen ∧
      plan.pinned ++ chosen.selected ≠ [] ∧
      r.inputs = Utxo.sortByRef (plan.pinned ++ chosen.selected) := by
  obtain ⟨chosen, selection, funded⟩ := plan.fund_cases (largest ▸ r.funded)
  refine ⟨chosen, selection, funded.resolve_right (fun ⟨nothing, _⟩ => ?_)⟩
  rcases needed with pins | asks
  · exact pins (List.append_eq_nil_iff.mp nothing).1
  · have zero : (plan.target r.spend state.changeExtra).isZero = true := by
      refine Value.isZero_iff.mpr (fun c => Nat.le_zero.mp ?_)
      have reached := Selection.le_held_of_largestFirst selection c
      rwa [nothing] at reached
    rw [zero] at asks
    cases asks

theorem Needed.fund_eq (largest : s.select = Selection.largestFirst) {r : Draw s plan state}
    (needed : r.Needed) {extra : UInt64} (le : state.changeExtra ≤ extra)
    (surplus : r.room extra ≤ r.rest.lovelace.toNat) :
    plan.fund s.select (plan.target r.spend extra) = .ok r.inputs := by
  obtain ⟨chosen, selection, something, inputs⟩ := needed.exists_chosen largest
  have total : (Utxo.total (plan.pinned ++ chosen.selected)).amount .lovelace =
      (Utxo.total r.inputs).amount .lovelace := by
    rw [inputs, Utxo.amount_total, Utxo.amount_total]
    exact congrArg (min · _) (Utxo.held_perm (Ranked.sortOn_perm _ _).symm .lovelace)
  have difference : r.rest.lovelace.toNat + r.spend.lovelace.toNat = _ :=
    Value.amount_of_checkedSub r.rest_eq .lovelace
  rw [Value.amount_add] at difference
  have given : plan.implicit.amount .lovelace = plan.implicit.lovelace.toNat := rfl
  have le := UInt64.le_iff_toNat_le.mp le
  have before := plan.amount_target_lovelace r.spend state.changeExtra
  have after := plan.amount_target_lovelace r.spend extra
  have raised : (plan.target r.spend state.changeExtra).lovelace ≤
      (plan.target r.spend extra).lovelace := by
    apply UInt64.le_iff_toNat_le.mpr
    change (plan.target r.spend state.changeExtra).amount .lovelace ≤
      (plan.target r.spend extra).amount .lovelace
    omega
  have again : Selection.largestFirst plan.pinned plan.candidates (plan.target r.spend extra) =
      .ok chosen := by
    refine Selection.largestFirst_of_reached selection (plan.target_assets _ _ _) raised ?_
    rw [room] at surplus
    omega
  rw [largest, Plan.fund, again]
  simp only [inputs]

def again (r : Draw s plan state) {extra : UInt64}
    (funded : plan.fund s.select (plan.target r.spend extra) = .ok r.inputs) :
    Draw s plan { state with changeExtra := extra } :=
  ⟨r.spend, r.inputs, r.rest, r.spend_eq, funded, r.rest_eq⟩

theorem Needed.again {r : Draw s plan state} (needed : r.Needed) {extra : UInt64}
    (le : state.changeExtra ≤ extra)
    (funded : plan.fund s.select (plan.target r.spend extra) = .ok r.inputs) :
    (r.again funded).Needed := by
  refine needed.imp_right (fun asks => ?_)
  rw [← Bool.not_eq_true, Value.isZero_iff] at asks ⊢
  intro zero
  apply asks
  intro c
  have zero := zero c
  cases c with
  | asset id => exact zero
  | lovelace =>
    change (plan.target r.spend extra).amount .lovelace = 0 at zero
    have le := UInt64.le_iff_toNat_le.mp le
    rw [plan.amount_target_lovelace] at zero ⊢
    omega

/-- Change that falls short does so again, as long as what is asked for on top is left over. -/
theorem Short.rounds_unsettled (largest : s.select = Selection.largestFirst)
    {r : Draw s plan state} (short : r.Short) (needed : r.Needed) (d : Draft) (pools : Pools)
    {n : Nat} (surplus : state.changeExtra.toNat + (n - 1) * r.missing.toNat ≤
      r.rest.lovelace.toNat) :
    rounds s d pools plan n state = .error (.unsettled s.config.maxRounds) := by
  -- On the rounds left: each of them asks for what is missing once more.
  induction n generalizing state with
  | zero => rfl
  | succ n ih =>
    rw [Nat.add_sub_cancel] at surplus
    have missing := short.toNat_missing
    have least := r.least.toNat_lt_size
    have little := short.lt
    obtain ⟨extra, extra_eq⟩ : ∃ extra, state.changeExtra.checkedAdd r.missing = some extra := by
      apply UInt64.exists_checkedAdd
      omega
    have next : round s d pools plan state = .ok (.again { state with changeExtra := extra }) := by
      rw [short.round_eq, extra_eq]
      rfl
    rw [rounds, next]
    change rounds s d pools plan n { state with changeExtra := extra } = _
    cases n with
    | zero => rfl
    | succ n =>
      have sum := UInt64.checkedAdd_eq_some_iff.mp extra_eq
      rw [Nat.succ_mul] at surplus
      have le : state.changeExtra ≤ extra := by
        apply UInt64.le_iff_toNat_le.mpr
        omega
      have funded := needed.fund_eq largest le (by rw [room]; omega)
      apply ih (r := r.again funded) ⟨short.hasAssets, short.lovelace_lt⟩ (needed.again le funded)
      change extra.toNat + (n + 1 - 1) * r.missing.toNat ≤ r.rest.lovelace.toNat
      rw [Nat.add_sub_cancel]
      omega

end Draw

theorem attempt_again_ok {inputs : List Utxo} {change : Option TxOut} {dust : UInt64}
    (h : attempt s d pools plan state inputs change dust = .ok (.again next)) :
    state.fee < next.fee ∧ next.changeExtra = state.changeExtra := by
  obtain ⟨_, _, h⟩ := Except.bind_eq_ok.mp h
  obtain ⟨⟨_, _⟩, _, h⟩ := Except.bind_eq_ok.mp h
  obtain ⟨_, _, h⟩ := Except.bind_eq_ok.mp h
  dsimp only at h
  split at h
  · obtain ⟨_, _, done⟩ := Except.map_eq_ok.mp h
    cases done
  · rename_i short
    cases h
    exact ⟨UInt64.not_le.mp short, rfl⟩

theorem exists_short (h : round s d pools plan state = .ok (.again next))
    (raised : next.changeExtra ≠ state.changeExtra) :
    ∃ r : Draw s plan state, r.Short ∧
      ∃ extra, state.changeExtra.checkedAdd r.missing = some extra ∧
        next = { state with changeExtra := extra } := by
  obtain ⟨r⟩ := exists_draw_of_ok h
  by_cases short : r.Short
  · rw [short.round_eq] at h
    obtain ⟨extra, added, made⟩ := Except.bind_eq_ok.mp h
    cases made
    exact ⟨r, short, extra, orOverflow_eq_ok.mp added, rfl⟩
  · obtain ⟨o, same⟩ := r.exists_offer short d pools
    exact absurd (attempt_again_ok ((same s.evaluate).symm.trans h)).2 raised

theorem Plan.kind_of_fund {select : Selector} {target : Value} {e : BuildError}
    (h : plan.fund select target = .error e) : e.kind = .balance := by
  unfold fund at h
  split at h
  · cases h
    rfl
  · split at h
    · split at h
      · cases h
      · cases h
        rfl
    · cases h

/-- Where change with assets falls short of lovelace, the next round asks for what was asked for
before and for what is missing. So it asks for all that the change needs only where nothing was left
beyond what was asked for before. What it draws leaves what it asks for; but where so much was left
anyway, it draws the same inputs again, and where that goes on for long enough, the rounds run out.
-/
theorem raised_target_progress (largest : s.select = Selection.largestFirst)
    (h : round s d pools plan state = .ok (.again next))
    (raised : next.changeExtra ≠ state.changeExtra) :
    ∃ r : Draw s plan state, r.Short ∧ next.fee = state.fee ∧
      next.changeExtra.toNat = state.changeExtra.toNat + r.missing.toNat ∧
      (r.least ≤ next.changeExtra ↔ r.rest.lovelace ≤ state.changeExtra) ∧
      ((∃ e, round s d pools plan next = .error e ∧ e.kind = .balance) ∨
        ∃ r' : Draw s plan next, r'.spend = r.spend ∧
          r.room next.changeExtra ≤ r'.rest.lovelace.toNat ∧
          (r.Needed →
            (r'.inputs = r.inputs ↔ r.room next.changeExtra ≤ r.rest.lovelace.toNat))) ∧
      (r.Needed → ∀ n,
        state.changeExtra.toNat + (n - 1) * r.missing.toNat ≤ r.rest.lovelace.toNat →
          rounds s d pools plan n state = .error (.unsettled s.config.maxRounds)) := by
  obtain ⟨r, short, extra, added, rfl⟩ := exists_short h raised
  have sum := UInt64.checkedAdd_eq_some_iff.mp added
  have missing := short.toNat_missing
  have little := short.lt
  refine ⟨r, short, rfl, sum, ?_, ?_, fun needed n => short.rounds_unsettled largest needed d pools⟩
  · rw [UInt64.le_iff_toNat_le, UInt64.le_iff_toNat_le]
    dsimp only
    omega
  · rcases draw_or_error largest d pools plan { state with changeExtra := extra } with
      ⟨⟨r'⟩⟩ | ⟨e, failed, cause⟩
    · have spend : r'.spend = r.spend := Except.ok.inj (r'.spend_eq.symm.trans r.spend_eq)
      have leaves := r'.le_rest largest
      rw [spend] at leaves
      refine .inr ⟨r', spend, leaves, fun needed => ⟨fun same => ?_, fun surplus => ?_⟩⟩
      · have rest : r'.rest = r.rest := by
          have rest_eq := r'.rest_eq
          rw [same, spend, r.rest_eq] at rest_eq
          exact (Option.some.inj rest_eq).symm
        rwa [← rest]
      · have le : state.changeExtra ≤ extra := by
          apply UInt64.le_iff_toNat_le.mpr
          omega
        have funded := r'.funded
        rw [spend, needed.fund_eq largest le surplus] at funded
        exact (Except.ok.inj funded).symm
    · refine .inl ⟨e, failed, ?_⟩
      rcases cause with unspendable | ⟨_, _, unfunded⟩
      · cases r.spend_eq.symm.trans unspendable
      · exact Plan.kind_of_fund unfunded

end Balance

namespace Sample

def stalling : Draft where
  outputs := [{ address := keyAddress 2, value := tokens 2000000 3 }]
  changeAddress := some (keyAddress 3)

def stallingPools : Pools where
  available := some
    [utxo 0 (keyAddress 1) (tokens 3000000 5), utxo 1 (keyAddress 1) (.ofLovelace 100000000)]

def extra : Balance.Outcome → Option UInt64
  | .done _ => none
  | .again next => some next.changeExtra

set_option maxRecDepth 20000 in
theorem stalling_passes :
    (Balance.plan setup.params stalling stallingPools).satisfies (fun plan =>
      (plan.spend plan.minimumFee).satisfies (fun spend =>
        (plan.fund setup.select (plan.target spend 0)).satisfies (fun inputs =>
          ((Utxo.total inputs + plan.implicit).checkedSub spend).map (·.lovelace) ==
            some 1000000 && !(plan.target spend 0).isZero)) &&
      (Balance.round setup stalling stallingPools plan { fee := plan.minimumFee }).satisfies
        (fun o => extra o == some 12850)) = true := by
  cbv

end Sample

open Sample in
theorem Balance.raised_target_progress_stalling : ∃ plan next,
    Balance.plan setup.params stalling stallingPools = .ok plan ∧
    round setup stalling stallingPools plan { fee := plan.minimumFee } = .ok (.again next) ∧
    next.changeExtra = 12850 ∧
    (∃ r : Draw setup plan { fee := plan.minimumFee }, r.rest.lovelace = 1000000 ∧
      ∃ r' : Draw setup plan next, r'.inputs = r.inputs) ∧
    balance setup stalling stallingPools = .error (.unsettled 10) := by
  obtain ⟨plan, planned, passes⟩ := Except.satisfies_iff.mp stalling_passes
  obtain ⟨draws, asks⟩ := Bool.and_eq_true_iff.mp passes
  obtain ⟨spend, spend_eq, draws⟩ := Except.satisfies_iff.mp draws
  obtain ⟨inputs, funded, draws⟩ := Except.satisfies_iff.mp draws
  obtain ⟨leaves, asked⟩ := Bool.and_eq_true_iff.mp draws
  obtain ⟨rest, rest_eq, left⟩ := Option.map_eq_some_iff.mp (beq_iff_eq.mp leaves)
  obtain ⟨drawn, left, needed⟩ : ∃ r : Draw setup plan { fee := plan.minimumFee },
      r.rest.lovelace = 1000000 ∧ r.Needed :=
    ⟨⟨spend, inputs, rest, spend_eq, funded, rest_eq⟩, left, .inr (by simpa using asked)⟩
  obtain ⟨outcome, ran, asks⟩ := Except.satisfies_iff.mp asks
  cases outcome with
  | done tx => cases asks
  | again next =>
    have asks : next.changeExtra = 12850 := Option.some.inj (beq_iff_eq.mp asks)
    have raised : next.changeExtra ≠ 0 := by
      rw [asks]
      decide
    have largest : setup.select = Selection.largestFirst := rfl
    obtain ⟨r, _, _, sum, _, progress, stalls⟩ := raised_target_progress largest ran raised
    obtain rfl : r = drawn := Subsingleton.elim _ _
    have missing : r.missing.toNat = 12850 := by
      rw [asks] at sum
      exact (Nat.zero_add _).symm.trans sum.symm
    have unsettled := stalls needed 10 (by
      rw [missing, left]
      change 0 + (10 - 1) * 12850 ≤ (1000000 : UInt64).toNat
      decide)
    refine ⟨plan, next, planned, ran, asks, ⟨r, left, ?_⟩, ?_⟩
    · rcases progress with ⟨e, failed, kind⟩ | ⟨r', _, _, repeats⟩
      · rw [rounds, ran] at unsettled
        change (round setup stalling stallingPools plan next >>= _) = _ at unsettled
        rw [failed] at unsettled
        cases unsettled
        cases kind
      · have surplus : r.room next.changeExtra ≤ r.rest.lovelace.toNat := by
          rw [Draw.room, asks, left]
          exact (Nat.min_le_left _ _).trans (by decide)
        exact ⟨r', (repeats needed).mpr surplus⟩
    · rw [balance, planned]
      exact unsettled

end ConwayTx
