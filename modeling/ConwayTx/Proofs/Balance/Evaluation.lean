import ConwayTx.Proofs.Cbor.Writing
import ConwayTx.Proofs.Witness.Pairing
/-!
Where budgets come from. Budgets that were found in an earlier round are kept for as long as the
inputs stay the same, since the positions of redeemers depend on these; so what a transaction has in
the end is the answer to a question about its own inputs. Where nothing is evaluated, redeemers
share what a transaction may use.
-/

namespace ConwayTx

open Cbor (Item)

/-! ### Questions to the evaluator -/

open Classical in
noncomputable def Evaluator.refusing (v : Evaluator) (tx : Tx) (us : List Utxo) (e : BuildError) :
    Evaluator :=
  fun tx' us' => if tx' = tx ∧ us' = us then .error e else v tx' us'

/-- A computation asks an evaluator this question if it fails with whatever error it is refused
with. -/
def Consults {α : Type} (F : Evaluator → Except BuildError α) (v : Evaluator) (tx : Tx)
    (us : List Utxo) : Prop :=
  ∀ e, F (v.refusing tx us e) = .error e

/-- A computation passes on refusals if a refused question either fails it or was not asked. -/
def Relays {α : Type} (F : Evaluator → Except BuildError α) : Prop :=
  ∀ v tx us e, F (v.refusing tx us e) = .error e ∨ F (v.refusing tx us e) = F v

section Questions

variable {α β : Type} {F : Evaluator → Except BuildError α}
  {G : α → Evaluator → Except BuildError β} {v : Evaluator} {tx : Tx} {us : List Utxo}

theorem Relays.const (same : ∀ v w, F v = F w := by intros; rfl) : Relays F :=
  fun _ _ _ _ => .inr (same _ _)

theorem Relays.answer (tx : Tx) (us : List Utxo) : Relays (fun v => v tx us) := by
  intro v tx' us' e
  by_cases same : tx = tx' ∧ us = us' <;> simp [Evaluator.refusing, same]

theorem Relays.bind (first : Relays F) (later : ∀ a, Relays (G a)) :
    Relays (fun v => F v >>= fun a => G a v) := by
  intro v tx us e
  beta_reduce
  rcases first v tx us e with refused | same
  · rw [refused]
    exact .inl rfl
  · rw [same]
    cases F v with
    | error => exact .inr rfl
    | ok a => exact later a v tx us e

theorem Consults.answer : Consults (fun v => v tx us) v tx us := by
  intro e
  simp [Evaluator.refusing]

theorem Consults.bind (first : Consults F v tx us) :
    Consults (fun v => F v >>= fun a => G a v) v tx us := by
  intro e
  beta_reduce
  rw [first e]
  rfl

theorem Consults.of_bind (relays : Relays F) {a : α} (ok : F v = .ok a)
    (later : Consults (G a) v tx us) : Consults (fun v => F v >>= fun a => G a v) v tx us := by
  intro e
  beta_reduce
  rcases relays v tx us e with refused | same
  · rw [refused]
    rfl
  · rw [same, ok]
    exact later e

end Questions

/-! ### Budgets -/

theorem Redeemer.applyBudgets_units {budgets : Budgets} {rs rs' : List Redeemer}
    (h : applyBudgets budgets rs = (rs', .ok ())) :
    ∀ r ∈ rs', budgets.get? r.pointer = some r.units := by
  induction rs generalizing rs' with
  | nil =>
    cases h
    exact fun _ mem => nomatch mem
  | cons r rest ih =>
    unfold applyBudgets at h
    cases found : budgets.get? r.pointer with
    | none => simp [found] at h
    | some units =>
      cases later : applyBudgets budgets rest with
      | mk written outcome =>
        simp only [found, later, Prod.mk.injEq] at h
        obtain ⟨rfl, rfl⟩ := h
        exact List.forall_mem_cons.mpr ⟨found, ih later⟩

theorem Resolution.withBudgets_units {r r' : Resolution} {budgets : Budgets}
    (h : r.withBudgets budgets = .ok r') :
    ∀ x ∈ r'.redeemers, budgets.get? x.pointer = some x.units := by
  unfold withBudgets at h
  split at h
  · rename_i redeemers applied
    cases h
    exact Redeemer.applyBudgets_units applied
  · cases h

def ExUnits.share (budget : ExUnits) (count : Nat) : ExUnits :=
  ⟨budget.mem / UInt64.ofNat count, budget.steps / UInt64.ofNat count⟩

theorem Resolution.spread_units (r : Resolution) (budget : ExUnits) :
    ∀ x ∈ (r.spread budget).redeemers,
      x.units = budget.share (r.spread budget).redeemers.length := by
  simp [spread, Redeemer.spread, ExUnits.share]

theorem Redeemer.length_le_encode_mapItem (rs : List Redeemer) :
    rs.length ≤ (mapItem rs).encode.length := by
  have ordered := (Ranked.sortOn_perm pointer rs).length_eq
  have count := Item.count_entries_le (Ranked.sortOn pointer rs).length
    ((Ranked.sortOn pointer rs).map
      (fun r => (r.pointer.toItem, .array 2 [r.data.toItem, r.units.toItem])))
  rw [List.length_map] at count
  exact ordered.ge.trans count

theorem Tx.length_redeemers_le {tx : Tx} {bytes : Bytes} (h : tx.encode = .ok bytes) :
    tx.witnesses.redeemers.length ≤ bytes.length := by
  obtain ⟨item, made, rfl⟩ := Except.map_eq_ok.mp h
  obtain ⟨metadata, _, rfl⟩ := Except.map_eq_ok.mp made
  by_cases none : tx.witnesses.redeemers = []
  · simp [none]
  · have field : (.nat 5, Redeemer.mapItem tx.witnesses.redeemers) ∈ tx.witnesses.entries := by
      simp [Witnesses.entries, TxBody.filled, none]
    have value : Redeemer.mapItem tx.witnesses.redeemers ∈ tx.witnesses.toItem.children :=
      List.mem_flatMap.mpr ⟨_, field, by simp⟩
    calc
      tx.witnesses.redeemers.length
        ≤ (Redeemer.mapItem tx.witnesses.redeemers).encode.length :=
          Redeemer.length_le_encode_mapItem _
      _ ≤ tx.witnesses.toItem.encode.length := Item.length_encode_le value
      _ ≤ _ := @Item.length_encode_le (.array 4 _) _ (by simp [Item.children])

namespace Balance

variable {s : Setup} {d : Draft} {pools : Pools} {plan : Plan} {state : State} {tx : Tx}

/-! ### Balancing passes on refusals -/

section Relaying

variable (s d pools plan)

theorem relays_evaluate (known : Option Evaluated) (parts : Parts) :
    Relays (fun v => evaluate { s with evaluate := v } d known parts) := by
  cases reusable : known.filter (fun e => decide (e.refs = parts.refs)) with
  | some e =>
    simp only [evaluate, reusable]
    exact .const
  | none =>
    by_cases asks : (parts.resolution.needsCollateral && s.config.evaluates) = true
    · simp only [evaluate, reusable, asks, if_true]
      exact .bind .const (fun _ => .bind (.answer _ _) (fun _ => .const))
    · simp only [evaluate, reusable, asks]
      exact .const

theorem relays_prepare (known : Option Evaluated) (inputs : List Utxo) (outputs : List TxOut)
    (fee : UInt64) :
    Relays (fun v => prepare { s with evaluate := v } d pools known inputs outputs fee) := by
  refine .bind .const (fun resolution => ?_)
  by_cases needed : resolution.needsCollateral = true
  · simp only [needed, if_true]
    exact .bind .const (fun _ => relays_evaluate s d known _)
  · simp only [needed]
    exact relays_evaluate s d known _

theorem relays_attempt (state : State) (inputs : List Utxo) (change : Option TxOut)
    (dust : UInt64) :
    Relays (fun v => attempt { s with evaluate := v } d pools plan state inputs change dust) :=
  .bind .const (fun _ => .bind (relays_prepare s d pools _ _ _ _) (fun _ => .const))

theorem relays_round (state : State) :
    Relays (fun v => round { s with evaluate := v } d pools plan state) := by
  refine .bind .const (fun spend => .bind .const (fun inputs => ?_))
  cases (Utxo.total inputs + plan.implicit).checkedSub spend with
  | none => exact .const
  | some rest =>
    dsimp only
    cases Change.of s.params.coinsPerUtxoByte plan.changeAddress rest with
    | none | output | dust => exact relays_attempt s d pools plan state _ _ _
    | short => exact .const

end Relaying

/-! ### What is asked -/

structure Question (s : Setup) (d : Draft) (plan : Plan) (e : Evaluated) where
  target : Value
  inputs : List Utxo
  resolution : Resolution
  tx : Tx
  answer : List (RedeemerPointer × ExUnits)
  evaluates : s.config.evaluates = true
  funded : plan.fund s.select target = .ok inputs
  resolved : d.resolve s.datums inputs = .ok resolution
  inputs_eq : tx.body.inputs = OrdSet.ofList (inputs.map Utxo.ref)
  unpriced : tx.witnesses.redeemers.map Redeemer.unpriced =
    resolution.redeemers.map Redeemer.unpriced
  answered : s.evaluate tx (inputs ++ d.referenced) = .ok answer
  refs_eq : e.refs = tx.body.inputs
  budgets_eq : e.budgets = OrdMap.ofList answer

def Sourced {α : Type} (s : Setup) (d : Draft) (plan : Plan) (known : Option Evaluated)
    (F : Evaluator → Except BuildError α) (e : Evaluated) : Prop :=
  known = some e ∨
    ∃ q : Question s d plan e, Consults F s.evaluate q.tx (q.inputs ++ d.referenced)

theorem Sourced.imp {α β : Type} {known : Option Evaluated} {F : Evaluator → Except BuildError α}
    {G : Evaluator → Except BuildError β}
    (asked : ∀ {tx us}, Consults F s.evaluate tx us → Consults G s.evaluate tx us) {e : Evaluated}
    (h : Sourced s d plan known F e) : Sourced s d plan known G e :=
  h.imp_right (fun ⟨q, consults⟩ => ⟨q, asked consults⟩)

inductive Budgeted (s : Setup) (sourced : Evaluated → Prop) (parts : Parts) : Prop
  | evaluated {e : Evaluated} : sourced e → e.refs = parts.refs →
    (∀ r ∈ parts.resolution.redeemers, e.budgets.get? r.pointer = some r.units) →
    Budgeted s sourced parts
  | shared : (parts.resolution.needsCollateral && s.config.evaluates) = false →
    (∀ r ∈ parts.resolution.redeemers,
      r.units = s.params.maxTxUnits.share parts.resolution.redeemers.length) →
    Budgeted s sourced parts

theorem Budgeted.imp {now later : Evaluated → Prop} (h : ∀ {e}, now e → later e) {parts : Parts}
    (budgeted : Budgeted s now parts) : Budgeted s later parts := by
  cases budgeted with
  | evaluated sourced refs units => exact .evaluated (h sourced) refs units
  | shared unasked units => exact .shared unasked units

structure Filled (s : Setup) (sourced : Evaluated → Prop) (parts : Parts)
    (known : Option Evaluated) : Prop where
  kept : ∀ {e}, known = some e → sourced e
  budgeted : Budgeted s sourced parts

theorem Filled.imp {now later : Evaluated → Prop} (h : ∀ {e}, now e → later e) {parts : Parts}
    {known : Option Evaluated} (filled : Filled s now parts known) : Filled s later parts known :=
  ⟨fun same => h (filled.kept same), filled.budgeted.imp h⟩

theorem assemble_redeemers {p : Params} {parts : Parts} {full : Tx}
    (h : parts.assemble p d = .ok full) :
    full.witnesses.redeemers = parts.resolution.redeemers := by
  obtain ⟨_, _, rfl⟩ := assemble_ok h
  exact (Witnesses.addScript_others _ _).1

def Question.ofAnswer {parts : Parts} {target : Value} {t : Tx}
    {answer : List (RedeemerPointer × ExUnits)} (evaluates : s.config.evaluates = true)
    (funded : plan.fund s.select target = .ok parts.inputs)
    (resolved : d.resolve s.datums parts.inputs = .ok parts.resolution)
    (assembled : Parts.assemble
      { parts with resolution := parts.resolution.spread s.params.maxTxUnits } s.params d = .ok t)
    (answered : s.evaluate t (parts.resolved d) = .ok answer) :
    Question s d plan ⟨parts.refs, OrdMap.ofList answer⟩ where
  target := target
  inputs := parts.inputs
  resolution := parts.resolution
  tx := t
  answer := answer
  evaluates := evaluates
  funded := funded
  resolved := resolved
  inputs_eq := by
    obtain ⟨_, _, rfl⟩ := assemble_ok assembled
    rfl
  unpriced := by
    rw [assemble_redeemers assembled]
    exact Redeemer.spread_unpriced _ _
  answered := answered
  refs_eq := by
    obtain ⟨_, _, rfl⟩ := assemble_ok assembled
    rfl
  budgets_eq := rfl

theorem evaluate_filled {known known' : Option Evaluated} {parts parts' : Parts} {target : Value}
    (funded : plan.fund s.select target = .ok parts.inputs)
    (resolved : d.resolve s.datums parts.inputs = .ok parts.resolution)
    (h : evaluate s d known parts = .ok (parts', known')) :
    Filled s (Sourced s d plan known (fun v => evaluate { s with evaluate := v } d known parts))
      parts' known' := by
  unfold evaluate at h
  cases reusable : known.filter (fun e => decide (e.refs = parts.refs)) with
  | some e =>
    obtain ⟨same, refs⟩ := Option.filter_eq_some_iff.mp reusable
    simp only [reusable] at h
    obtain ⟨resolution, budgeted, h⟩ := Except.bind_eq_ok.mp h
    cases h
    have units := Resolution.withBudgets_units budgeted
    exact ⟨.inl, .evaluated (.inl same) (of_decide_eq_true refs) units⟩
  | none =>
    simp only [reusable] at h
    by_cases asks : (parts.resolution.needsCollateral && s.config.evaluates) = true
    · simp only [asks, if_true] at h
      obtain ⟨t, assembled, h⟩ := Except.bind_eq_ok.mp h
      obtain ⟨answer, answered, h⟩ := Except.bind_eq_ok.mp h
      obtain ⟨resolution, budgeted, h⟩ := Except.bind_eq_ok.mp h
      cases h
      have asked : Consults (fun v => evaluate { s with evaluate := v } d known parts) s.evaluate
          t (parts.resolved d) := by
        simp only [evaluate, reusable, asks, if_true]
        exact .of_bind .const assembled (.bind .answer)
      have sourced : Sourced s d plan known
          (fun v => evaluate { s with evaluate := v } d known parts)
          ⟨parts.refs, OrdMap.ofList answer⟩ :=
        .inr ⟨.ofAnswer (Bool.and_eq_true_iff.mp asks).2 funded resolved assembled answered, asked⟩
      refine ⟨?_, .evaluated sourced rfl (Resolution.withBudgets_units budgeted)⟩
      rintro _ ⟨⟩
      exact sourced
    · simp only [asks] at h
      cases h
      have spread := Resolution.spread_unpriced parts.resolution s.params.maxTxUnits
      rw [← Resolution.needsCollateral_of_unpriced spread] at asks
      exact ⟨.inl, .shared (Bool.eq_false_iff.mpr asks) (Resolution.spread_units _ _)⟩

theorem prepare_filled {known known' : Option Evaluated} {inputs : List Utxo}
    {outputs : List TxOut} {fee : UInt64} {parts : Parts} {target : Value}
    (funded : plan.fund s.select target = .ok inputs)
    (h : prepare s d pools known inputs outputs fee = .ok (parts, known')) :
    Filled s
      (Sourced s d plan known
        (fun v => prepare { s with evaluate := v } d pools known inputs outputs fee))
      parts known' := by
  obtain ⟨resolution, resolved, h⟩ := Except.bind_eq_ok.mp h
  simp only at h
  by_cases needed : resolution.needsCollateral = true
  · simp only [needed, if_true] at h
    obtain ⟨collateral, secured, h⟩ := Except.bind_eq_ok.mp h
    refine (evaluate_filled funded resolved h).imp (Sourced.imp (fun asked => ?_))
    refine .of_bind .const resolved ?_
    simp only [needed, if_true]
    exact .of_bind .const secured asked
  · simp only [needed] at h
    refine (evaluate_filled funded resolved h).imp (Sourced.imp (fun asked => ?_))
    refine .of_bind .const resolved ?_
    simp only [needed]
    exact asked

theorem consults_attempt {o : Offer s plan state} {fee : UInt64}
    (added : state.fee.checkedAdd o.dust = some fee) {t : Tx} {us : List Utxo}
    (asked : Consults (fun v => prepare { s with evaluate := v } d pools state.evaluated o.inputs
      (plan.outputs ++ o.change.toList) fee) s.evaluate t us) :
    Consults (fun v => attempt { s with evaluate := v } d pools plan state o.inputs o.change o.dust)
      s.evaluate t us :=
  .of_bind .const (orOverflow_eq_ok.mpr added) (.bind asked)

theorem Accepted.filled (a : Accepted s d pools plan state tx) :
    Filled s (Sourced s d plan state.evaluated
      (fun v => attempt { s with evaluate := v } d pools plan state a.inputs a.change a.dust))
      a.parts a.known :=
  (prepare_filled a.funded a.ran).imp (Sourced.imp (consults_attempt a.fee_eq))

theorem attempt_again {o : Offer s plan state} {next : State}
    (h : attempt s d pools plan state o.inputs o.change o.dust = .ok (.again next)) {e : Evaluated}
    (now : next.evaluated = some e) :
    Sourced s d plan state.evaluated
      (fun v => attempt { s with evaluate := v } d pools plan state o.inputs o.change o.dust)
      e := by
  obtain ⟨fee, added, h⟩ := Except.bind_eq_ok.mp h
  obtain ⟨⟨parts, known⟩, ran, h⟩ := Except.bind_eq_ok.mp h
  obtain ⟨full, _, h⟩ := Except.bind_eq_ok.mp h
  simp only at h
  split at h
  · obtain ⟨_, _, other⟩ := Except.map_eq_ok.mp h
    cases other
  · cases h
    exact ((prepare_filled o.funded ran).kept now).imp
      (consults_attempt (orOverflow_eq_ok.mp added))

theorem round_again {next : State} (h : round s d pools plan state = .ok (.again next))
    {e : Evaluated} (now : next.evaluated = some e) :
    Sourced s d plan state.evaluated
      (fun v => round { s with evaluate := v } d pools plan state) e := by
  rcases round_cases h with ⟨o, same⟩ | ⟨_, again⟩
  · simp only [same]
    exact attempt_again ((same s.evaluate).symm.trans h) now
  · cases again
    exact .inl now

theorem round_filled (h : round s d pools plan state = .ok (.done tx)) :
    ∃ a : Accepted s d pools plan state tx,
      Budgeted s (Sourced s d plan state.evaluated
        (fun v => round { s with evaluate := v } d pools plan state)) a.parts := by
  rcases round_cases h with ⟨o, same⟩ | ⟨_, again⟩
  · obtain ⟨a, rfl⟩ := attempt_done o ((same s.evaluate).symm.trans h)
    simp only [same]
    exact ⟨a, a.filled.budgeted⟩
  · cases again

theorem rounds_budgeted {left : Nat} (h : rounds s d pools plan left state = .ok tx) :
    ∃ last, ∃ a : Accepted s d pools plan last tx,
      Budgeted s (Sourced s d plan state.evaluated
        (fun v => rounds { s with evaluate := v } d pools plan left state)) a.parts := by
  -- On the rounds left. What a later round asks, the whole run asks, as the rounds before it pass
  -- on refusals; and what a later round knows beforehand, an earlier one has kept.
  induction left generalizing state with
  | zero => cases h
  | succ left ih =>
    obtain ⟨outcome, ran, h⟩ := Except.bind_eq_ok.mp h
    cases outcome with
    | done tx' =>
      cases h
      obtain ⟨a, budgeted⟩ := round_filled ran
      exact ⟨state, a, budgeted.imp (Sourced.imp Consults.bind)⟩
    | again next =>
      obtain ⟨last, a, budgeted⟩ := ih h
      refine ⟨last, a, budgeted.imp (fun sourced => ?_)⟩
      rcases sourced with known | ⟨q, asked⟩
      · exact (round_again ran known).imp Consults.bind
      · exact .inr ⟨q, .of_bind (relays_round s d pools plan state) ran asked⟩

theorem checkUnits_ok {p : Params} {units : ExUnits} (h : checkUnits p units = .ok ()) :
    units.mem ≤ p.maxTxUnits.mem ∧ units.steps ≤ p.maxTxUnits.steps := by
  unfold checkUnits at h
  split at h
  · cases h
  · rename_i within
    simpa [not_or, UInt64.not_lt] using within

namespace Accepted

variable (a : Accepted s d pools plan state tx)
include a

theorem totalUnits_le :
    (ExUnits.sum (tx.witnesses.redeemers.map Redeemer.units)).mem ≤ s.params.maxTxUnits.mem ∧
      (ExUnits.sum (tx.witnesses.redeemers.map Redeemer.units)).steps ≤
        s.params.maxTxUnits.steps := by
  rw [a.tx_redeemers]
  exact checkUnits_ok (finish_ok a.finished).units

theorem tx_redeemers_few : tx.witnesses.redeemers.length < UInt64.size := by
  have finished := finish_ok a.finished
  obtain ⟨bytes, encoded, fits⟩ := checkSize_ok finished.size
  calc
    tx.witnesses.redeemers.length = a.full.witnesses.redeemers.length := by
      rw [finished.witnesses_eq]
    _ ≤ bytes.length := Tx.length_redeemers_le encoded
    _ ≤ s.params.maxTxSize.toNat := fits
    _ < UInt64.size := Nat.lt_trans s.params.maxTxSize.toNat_lt (by decide)

end Accepted

namespace Question

variable {e : Evaluated} (q : Question s d plan e) (planned : Planned s.params d pools plan)
  (pins : d.PinsByRef) (lawful : s.select.Lawful)
include planned pins lawful

theorem inputs_eq_spent (same : q.tx.body.inputs = tx.body.inputs) :
    q.inputs = pools.spent d tx := by
  rw [plan.fund_eq_named planned pins lawful q.funded, ← q.inputs_eq, same]
  rfl

theorem redeemers_unpriced (a : Accepted s d pools plan state tx)
    (same : q.tx.body.inputs = tx.body.inputs) :
    q.tx.witnesses.redeemers.map Redeemer.unpriced =
      tx.witnesses.redeemers.map Redeemer.unpriced := by
  obtain ⟨r, resolved, found⟩ := a.prepared.resolved
  have inputs : q.inputs = a.inputs :=
    (q.inputs_eq_spent planned pins lawful same).trans
      (a.inputs_eq_spent planned pins lawful).symm
  rw [← inputs, q.resolved] at resolved
  obtain rfl := Except.ok.inj resolved
  rw [q.unpriced, a.redeemers_unpriced found]

end Question

namespace Budgeted

variable {α : Type} {F : Evaluator → Except BuildError α} {parts : Parts}
  (budgeted : Budgeted s (Sourced s d plan none F) parts)
include budgeted

theorem exists_question (needed : parts.resolution.needsCollateral = true)
    (evaluates : s.config.evaluates = true) :
    ∃ e, ∃ q : Question s d plan e, Consults F s.evaluate q.tx (q.inputs ++ d.referenced) ∧
      q.tx.body.inputs = parts.refs ∧
      ∀ r ∈ parts.resolution.redeemers, ∃ before after,
        q.answer = before ++ (r.pointer, r.units) :: after ∧ r.pointer ∉ after.map Prod.fst := by
  cases budgeted with
  | shared unasked => simp [needed, evaluates] at unasked
  | @evaluated e sourced refs units =>
    rcases sourced with known | ⟨q, asked⟩
    · cases known
    · refine ⟨e, q, asked, q.refs_eq.symm.trans refs, fun r mem => ?_⟩
      have found := units r mem
      rw [q.budgets_eq] at found
      exact OrdMap.get?_ofList_eq_some found

theorem units_share (unevaluated : s.config.evaluates = false) :
    ∀ r ∈ parts.resolution.redeemers,
      r.units = s.params.maxTxUnits.share parts.resolution.redeemers.length := by
  cases budgeted with
  | shared _ units => exact units
  | evaluated sourced =>
    rcases sourced with known | ⟨q, _⟩
    · cases known
    · simp [q.evaluates] at unevaluated

end Budgeted

/-- Where scripts are evaluated, the units of all redeemers are those that the evaluator gave last
for them when it was asked about a transaction with the same inputs and the same redeemers. Where
they are not, every redeemer has as large a share of the limit as there is for all of them. -/
theorem units_evaluated (h : balance s d pools = .ok tx) (runs : tx.witnesses.redeemers ≠ []) :
    (s.config.evaluates = true → ∃ t us answer,
      Consults (fun v => balance { s with evaluate := v } d pools) s.evaluate t us ∧
      s.evaluate t us = .ok answer ∧
      t.body.inputs = tx.body.inputs ∧
      (d.PinsByRef → s.select.Lawful → us = pools.spent d tx ++ d.referenced ∧
        t.witnesses.redeemers.map Redeemer.unpriced =
          tx.witnesses.redeemers.map Redeemer.unpriced) ∧
      ∀ r ∈ tx.witnesses.redeemers, ∃ before after,
        answer = before ++ (r.pointer, r.units) :: after ∧ r.pointer ∉ after.map Prod.fst) ∧
    (s.config.evaluates = false → ∀ r ∈ tx.witnesses.redeemers,
      r.units.mem.toNat = s.params.maxTxUnits.mem.toNat / tx.witnesses.redeemers.length ∧
      r.units.steps.toNat = s.params.maxTxUnits.steps.toNat / tx.witnesses.redeemers.length) ∧
    (ExUnits.sum (tx.witnesses.redeemers.map Redeemer.units)).mem ≤ s.params.maxTxUnits.mem ∧
    (ExUnits.sum (tx.witnesses.redeemers.map Redeemer.units)).steps ≤
      s.params.maxTxUnits.steps := by
  obtain ⟨plan, made, h⟩ := Except.bind_eq_ok.mp h
  have planned := plan_ok made
  obtain ⟨last, a, budgeted⟩ := rounds_budgeted h
  have few := a.tx_redeemers_few
  refine ⟨fun evaluates => ?_, fun unevaluated r mem => ?_, a.totalUnits_le⟩
  · have needed : a.parts.resolution.needsCollateral = true := by
      rw [a.tx_redeemers] at runs
      simpa [Resolution.needsCollateral] using runs
    obtain ⟨e, q, asked, refs, last⟩ := budgeted.exists_question needed evaluates
    have same : q.tx.body.inputs = tx.body.inputs := refs.trans (a.of_body (fun _ => rfl)).symm
    refine ⟨q.tx, q.inputs ++ d.referenced, q.answer,
      .of_bind .const made asked, q.answered, same, fun pins lawful => ?_, ?_⟩
    · rw [q.inputs_eq_spent planned pins lawful same]
      exact ⟨rfl, q.redeemers_unpriced planned pins lawful a same⟩
    · rwa [a.tx_redeemers]
  · have units := budgeted.units_share unevaluated
    rw [← a.tx_redeemers] at units
    rw [units r mem]
    simp [ExUnits.share, UInt64.toNat_ofNat_of_lt' few]

end Balance

namespace Sample

def metered : Setup :=
  { setup with
    config := { evaluates := true }
    evaluate := fun _ _ => .ok
      [(⟨.cert, 1⟩, ⟨700, 900000⟩), (⟨.spend, 0⟩, ⟨1, 1⟩), (⟨.cert, 1⟩, ⟨500, 600000⟩)] }

theorem metered_passes : (run leaving).satisfies (fun (w, _) =>
    (balance metered w.draft w.pools).satisfies (fun tx =>
      tx.witnesses.redeemers.map (fun r => (r.pointer, r.units)) ==
        [(⟨.cert, 1⟩, ⟨500, 600000⟩)])) = true := by
  decide +kernel

end Sample

theorem Balance.units_evaluated_leaving : ∃ w unmetered tx,
    Sample.run Sample.leaving = .ok (w, unmetered) ∧
    balance Sample.metered w.draft w.pools = .ok tx ∧
    tx.witnesses.redeemers.map (fun r => (r.pointer, r.units)) =
      [(⟨.cert, 1⟩, ⟨500, 600000⟩)] ∧
    ∃ t us answer, Consults (fun v => balance { Sample.metered with evaluate := v } w.draft w.pools)
        Sample.metered.evaluate t us ∧
      Sample.metered.evaluate t us = .ok answer ∧ t.body.inputs = tx.body.inputs ∧
      t.witnesses.redeemers.map Redeemer.unpriced = tx.witnesses.redeemers.map Redeemer.unpriced ∧
      ∀ r ∈ tx.witnesses.redeemers, ∃ before after,
        answer = before ++ (r.pointer, r.units) :: after ∧ r.pointer ∉ after.map Prod.fst := by
  obtain ⟨⟨w, unmetered⟩, ran, passes⟩ := Except.satisfies_iff.mp Sample.metered_passes
  obtain ⟨tx, balanced, units⟩ := Except.satisfies_iff.mp passes
  rw [beq_iff_eq] at units
  obtain ⟨reachable, _⟩ := Sample.run_ok ran
  have runs : tx.witnesses.redeemers ≠ [] := by
    intro none
    simp [none] at units
  obtain ⟨evaluated, _⟩ := units_evaluated balanced runs
  obtain ⟨t, us, answer, asked, answered, inputs, same, last⟩ := evaluated rfl
  obtain ⟨_, unpriced⟩ := same reachable.pinsByRef Selection.largestFirst_lawful
  exact ⟨w, unmetered, tx, ran, balanced, units, t, us, answer, asked, answered, inputs, unpriced,
    last⟩

end ConwayTx
