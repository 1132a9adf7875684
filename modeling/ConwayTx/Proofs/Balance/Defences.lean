import ConwayTx.Proofs.Balance.Conservation
import ConwayTx.Proofs.Balance.Draws
/-!
The checks that balancing makes on its own results. They are never what it fails with: what is drawn
pays for what has to be paid for, and what goes out is, clipped sums included, what comes in.
-/

namespace ConwayTx

open Except (FailsWith)

def BuildError.Defensive : BuildError → Prop
  | .cannotPay _ | .unbalanced _ _ => True
  | _ => False

abbrev Ordinary {α : Type} (x : Except BuildError α) : Prop := x.FailsWith (fun e => ¬ e.Defensive)

/-- Where an error is that of a check, it is the evaluator that has answered with it. -/
def Setup.Echoes (s : Setup) (e : BuildError) : Prop :=
  e.Defensive → ∃ tx us, s.evaluate tx us = .error e

theorem Ordinary.echoes {α : Type} {x : Except BuildError α} (h : Ordinary x) (s : Setup) :
    x.FailsWith s.Echoes :=
  h.mono (fun _ other defensive => absurd defensive other)

theorem Total.ordinary_sum (total : Total) (amounts : List UInt64) :
    Ordinary (total.sum amounts) := by
  unfold sum
  split
  · exact .ok _ _
  · exact .error id

namespace Draft

variable (d : Draft)

theorem ordinary_implicitInput (p : Params) : Ordinary (d.implicitInput p) := by
  refine .bind (Total.ordinary_sum _ _) (fun _ _ => .bind (Total.ordinary_sum _ _) (fun _ _ =>
    .bind (Total.ordinary_sum _ _) (fun _ _ => ?_)))
  split
  · exact .ok _ _
  · exact .error id

theorem ordinary_ofActions (purpose : Purpose) (index : Nat) (as : List Action) :
    Ordinary (Requirement.ofActions purpose index as) := by
  induction as generalizing index with
  | nil => exact .ok _ _
  | cons a rest ih =>
    refine .bind ?_ (fun _ _ => .bind (ih _) (fun _ _ => .ok _ _))
    unfold Requirement.ofAction
    split
    · exact .ok _ _
    · exact .error id
    · exact .ok _ _

theorem ordinary_spendDatum (source : DatumSource) (u : Utxo) (language : Language) :
    Ordinary (d.spendDatum source u language) := by
  unfold spendDatum
  split
  · split
    · split
      · exact .ok _ _
      · exact .error id
    · split
      · exact .ok _ _
      · exact .error id
  · exact .ok _ _
  · split
    · exact .ok _ _
    · exact .error id

theorem ordinary_resolveOne (source : DatumSource) (inputs : List Utxo)
    (referenced : OrdMap ScriptHash Script) (acc : Resolution × OrdMap DatumHash PlutusData)
    (q : Requirement) : Ordinary (d.resolveOne source inputs referenced acc q) := by
  unfold resolveOne
  dsimp only
  split
  · exact .error id
  · exact .ok _ _
  · exact .error id
  · exact .error id
  · split
    · exact .bind (d.ordinary_spendDatum source _ _) (fun _ _ => .ok _ _)
    · exact .ok _ _

theorem ordinary_resolve (source : DatumSource) (inputs : List Utxo) :
    Ordinary (d.resolve source inputs) := by
  refine .bind ?_ (fun _ _ => .bind ?_ (fun _ _ => .ok _ _))
  · exact .bind (.mapM (fun _ => ordinary_ofActions _ _ _) _) (fun _ _ => .ok _ _)
  · exact .foldlM (d.ordinary_resolveOne source inputs _) _ _

end Draft

theorem Collateral.ordinary_select (p : Params) (c : Config) (d : Draft) (pools : Pools)
    (fee : UInt64) : Ordinary (select p c d pools fee) := by
  unfold select
  split
  · exact .error id
  · exact .error id
  · refine .bind ?_ (fun _ _ => ?_)
    · unfold required
      split
      · exact .ok _ _
      · exact .error id
    · dsimp only
      split
      · exact .ok _ _
      · exact .error id

theorem Redeemer.ordinary_applyBudgets (budgets : Budgets) (rs : List Redeemer) :
    Ordinary (applyBudgets budgets rs).2 := by
  induction rs with
  | nil => exact .ok _ _
  | cons r rest ih =>
    unfold applyBudgets
    split
    · exact .error id
    · exact ih

theorem Resolution.ordinary_withBudgets (r : Resolution) (budgets : Budgets) :
    Ordinary (r.withBudgets budgets) := by
  have applied := Redeemer.ordinary_applyBudgets budgets r.redeemers
  unfold withBudgets
  split
  · exact .ok _ _
  · rename_i failed
    rw [failed] at applied
    exact .error (applied _ rfl)

namespace Balance

variable {s : Setup} {d : Draft} {pools : Pools} {plan : Plan} {state : State}

theorem ordinary_orOverflow (n : Option UInt64) : Ordinary (orOverflow n) := by
  cases n with
  | none => exact .error id
  | some n => exact .ok _ _

theorem ordinary_plan (p : Params) (d : Draft) (pools : Pools) :
    Ordinary (Balance.plan p d pools) := by
  have set {α : Type} (what : Setting) (o : Option α) : Ordinary (orNotSet what o) := by
    cases o with
    | none => exact .error id
    | some a => exact .ok _ _
  refine .bind (set _ _) (fun _ _ => .bind (set _ _) (fun _ _ =>
    .bind (d.ordinary_implicitInput p) (fun _ _ => .bind (Total.ordinary_sum _ _) (fun _ _ =>
      .bind ?_ (fun _ _ => .ok _ _)))))
  unfold exactSum
  split
  · exact .ok _ _
  · exact .error id

theorem Plan.ordinary_spend (plan : Plan) (fee : UInt64) : Ordinary (plan.spend fee) := by
  unfold spend
  split
  · exact .ok _ _
  · exact .error id

theorem Plan.ordinary_fund (plan : Plan) (select : Selector) (target : Value) :
    Ordinary (plan.fund select target) := by
  unfold fund
  split
  · exact .error id
  · split
    · split
      · exact .ok _ _
      · exact .error id
    · exact .ok _ _

theorem Parts.ordinary_assemble (parts : Parts) (p : Params) (d : Draft) :
    Ordinary (parts.assemble p d) := by
  refine .bind ?_ (fun _ _ => .ok _ _)
  unfold Resolution.scriptDataHash
  split
  · exact .ok _ _
  · split
    · exact .ok _ _
    · exact .error id

theorem ordinary_checkUnits (p : Params) (units : ExUnits) : Ordinary (checkUnits p units) := by
  unfold checkUnits
  split
  · exact .error id
  · exact .ok _ _

theorem ordinary_checkValues (p : Params) (os : List TxOut) : Ordinary (checkValues p os) := by
  induction os with
  | nil => exact .ok _ _
  | cons o rest ih =>
    unfold checkValues
    dsimp only
    split
    · exact .error id
    · exact ih

theorem ordinary_checkSize (p : Params) (tx : Tx) : Ordinary (checkSize p tx) := by
  unfold checkSize
  split
  · exact .error id
  · split
    · exact .error id
    · exact .ok _ _

end Balance

namespace Balance

variable {s : Setup} {d : Draft} {pools : Pools} {plan : Plan} {state : State}

theorem Offer.amount_provided (planned : Planned s.params d pools plan) (o : Offer s plan state)
    (c : Component) :
    (plan.outputs.map (fun u => u.value.amount c)).sum + d.mint.burned.amount c +
      (Value.ofLovelace plan.deposits).amount c + (Value.ofLovelace state.fee).amount c +
      ((o.change.toList.map (fun u => u.value.amount c)).sum + (Value.ofLovelace o.dust).amount c) =
      (Utxo.total o.inputs + plan.implicit).amount c := by
  have committed := amount_exactSum planned.committed c
  have spend := Plan.amount_spend o.spend_eq c
  have rest := o.settled.amount c
  have difference := Value.amount_of_checkedSub o.rest_eq c
  simp only [List.map_append, List.map_map, List.sum_append, List.map_cons, List.map_nil,
    List.sum_cons, List.sum_nil, Nat.add_zero, Function.comp_def] at committed
  omega

theorem checkBalance_of_offer (planned : Planned s.params d pools plan)
    (o : Offer s plan state) {tx : Tx}
    (outputs : tx.body.outputs = plan.outputs ++ o.change.toList) (mint : tx.body.mint = d.mint)
    (paid : state.fee.checkedAdd o.dust = some tx.body.fee) :
    checkBalance plan o.inputs tx = .ok () := by
  have provided := o.amount_provided planned
  have bound (c : Component) := (Utxo.total o.inputs + plan.implicit).amount_le c
  have fee := UInt64.checkedAdd_eq_some_iff.mp paid
  obtain ⟨due, due_eq⟩ : ∃ due, tx.body.fee.checkedAdd plan.deposits = some due := by
    have together := provided .lovelace
    have bound := bound .lovelace
    simp only [Value.amount_ofLovelace_lovelace] at together
    apply UInt64.exists_checkedAdd
    omega
  have paid_in (c : Component) : (Value.ofLovelace due).amount c =
      (Value.ofLovelace state.fee).amount c + (Value.ofLovelace o.dust).amount c +
        (Value.ofLovelace plan.deposits).amount c := by
    cases c with
    | lovelace =>
      have := UInt64.checkedAdd_eq_some_iff.mp due_eq
      simp only [Value.amount_ofLovelace_lovelace]
      omega
    | asset id => simp
  have balanced : Value.sum (tx.body.outputs.map TxOut.value) + tx.body.mint.burned +
      Value.ofLovelace due = Utxo.total o.inputs + plan.implicit := by
    refine Value.eq_of_amount (Value.add_pruned _ _) (Value.add_pruned _ _) (fun c => ?_)
    have provided := provided c
    have bound := bound c
    rw [Value.amount_add, Value.amount_add, Value.amount_sum, outputs, mint, paid_in, List.map_map,
      List.map_append, List.sum_append]
    simp only [Function.comp_def]
    omega
  rw [checkBalance, due_eq]
  exact if_pos balanced

theorem evaluate_echoes (known : Option Evaluated) (parts : Parts) :
    (evaluate s d known parts).FailsWith s.Echoes := by
  unfold evaluate
  dsimp only
  split
  · exact .bind ((Resolution.ordinary_withBudgets _ _).echoes s) (fun _ _ => .ok _ _)
  · split
    · refine .bind ((Parts.ordinary_assemble _ _ _).echoes s) (fun tx _ => .bind ?_ (fun _ _ =>
        .bind ((Resolution.ordinary_withBudgets _ _).echoes s) (fun _ _ => .ok _ _)))
      exact fun e answered _ => ⟨tx, _, answered⟩
    · exact .ok _ _

theorem prepare_echoes (known : Option Evaluated) (inputs : List Utxo) (outputs : List TxOut)
    (fee : UInt64) : (prepare s d pools known inputs outputs fee).FailsWith s.Echoes := by
  refine .bind ((d.ordinary_resolve _ _).echoes s) (fun resolution _ => ?_)
  dsimp only
  split
  · refine .bind (.map ((Collateral.ordinary_select _ _ _ _ _).echoes s)) (fun _ _ => ?_)
    exact evaluate_echoes _ _
  · exact evaluate_echoes _ _

theorem attempt_echoes (planned : Planned s.params d pools plan) (o : Offer s plan state) :
    (attempt s d pools plan state o.inputs o.change o.dust).FailsWith s.Echoes := by
  refine .bind ((ordinary_orOverflow _).echoes s) (fun fee added => ?_)
  refine .bind (prepare_echoes _ _ _ _) (fun (parts, known) ran => ?_)
  refine .bind ((parts.ordinary_assemble _ _).echoes s) (fun tx assembled => ?_)
  have prepared := prepare_ok ran
  obtain ⟨hash, _, rfl⟩ := assemble_ok assembled
  dsimp only
  split
  · refine .map (.bind ((ordinary_checkUnits _ _).echoes s) (fun _ _ =>
      .bind ((ordinary_checkValues _ _).echoes s) (fun _ _ =>
        .bind ((ordinary_checkSize _ _).echoes s) (fun _ _ => .bind ?_ (fun _ _ => .ok _ _)))))
    have paid := orOverflow_eq_ok.mp added
    rw [← prepared.fee_eq] at paid
    rw [prepared.inputs_eq, checkBalance_of_offer planned o prepared.outputs_eq rfl paid]
    exact .ok _ _
  · exact .ok _ _

theorem round_echoes (planned : Planned s.params d pools plan)
    (largest : s.select = Selection.largestFirst) (state : State) :
    (round s d pools plan state).FailsWith s.Echoes := by
  rcases draw_or_error largest d pools plan state with ⟨⟨r⟩⟩ | ⟨e, failed, cause⟩
  · by_cases short : r.Short
    · rw [short.round_eq]
      exact .bind ((ordinary_orOverflow _).echoes s) (fun _ _ => .ok _ _)
    · obtain ⟨o, same⟩ := r.exists_offer short d pools
      rw [show round s d pools plan state = _ from same s.evaluate]
      exact attempt_echoes planned o
  · rw [failed]
    rcases cause with spend | ⟨spend, _, funding⟩
    · exact .error ((plan.ordinary_spend _).echoes s e spend)
    · exact .error ((plan.ordinary_fund _ _).echoes s e funding)

theorem rounds_echoes (planned : Planned s.params d pools plan)
    (largest : s.select = Selection.largestFirst) (left : Nat) (state : State) :
    (rounds s d pools plan left state).FailsWith s.Echoes := by
  induction left generalizing state with
  | zero => exact .error (fun defensive => nomatch defensive)
  | succ left ih =>
    refine .bind (round_echoes planned largest state) (fun outcome _ => ?_)
    cases outcome with
    | done tx => exact .ok _ _
    | again next => exact ih next

/-- The two checks of balancing on its own results do not fail it, however large the values are: an
error of theirs can only be what the evaluator itself has answered with. -/
theorem defences_unreachable (largest : s.select = Selection.largestFirst) :
    (∀ spend, balance s d pools = .error (.cannotPay spend) →
      ∃ tx us, s.evaluate tx us = .error (.cannotPay spend)) ∧
    ∀ consumed produced, balance s d pools = .error (.unbalanced consumed produced) →
      ∃ tx us, s.evaluate tx us = .error (.unbalanced consumed produced) := by
  have echoes : (balance s d pools).FailsWith s.Echoes := by
    refine .bind ((ordinary_plan _ _ _).echoes s) (fun plan planned => ?_)
    exact rounds_echoes (plan_ok planned) largest _ _
  exact ⟨fun _ failed => echoes _ failed trivial, fun _ _ failed => echoes _ failed trivial⟩

end Balance

namespace Sample

def flood : Pools where
  available := some
    [utxo 0 (keyAddress 1) (tokens 0xffffffffffffffff 0xffffffffffffffff),
      utxo 1 (keyAddress 1) (tokens 0xffffffffffffffff 0xffffffffffffffff)]

def flooding : Draft where
  outputs := [{ address := keyAddress 2, value := tokens 0xffffffffff000000 0xffffffffffffffff }]
  changeAddress := some (keyAddress 3)

end Sample

open Sample in
theorem Balance.defences_unreachable_flooding :
    (¬ ∃ spend, balance setup flooding flood = .error (.cannotPay spend)) ∧
    ¬ ∃ consumed produced,
      balance setup flooding flood = .error (.unbalanced consumed produced) := by
  obtain ⟨pays, balances⟩ := @defences_unreachable setup flooding flood rfl
  constructor
  · rintro ⟨spend, failed⟩
    obtain ⟨_, _, answered⟩ := pays spend failed
    cases answered
  · rintro ⟨consumed, produced, failed⟩
    obtain ⟨_, _, answered⟩ := balances consumed produced failed
    cases answered

end ConwayTx
