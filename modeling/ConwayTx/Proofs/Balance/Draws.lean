import ConwayTx.Proofs.Balance.Accepted
import ConwayTx.Proofs.Selection.Coverage

namespace ConwayTx

theorem Value.exists_checkedSub {v w : Value} (h : ∀ c, w.amount c ≤ v.amount c) :
    ∃ u, v.checkedSub w = some u :=
  ⟨_, if_pos (Value.covers_iff.mpr h)⟩

namespace Balance

variable {s : Setup} {d : Draft} {pools : Pools} {plan : Plan} {state : State}

theorem Plan.fund_covers {target : Value} {inputs : List Utxo}
    (funded : plan.fund Selection.largestFirst target = .ok inputs) (c : Component) :
    target.amount c ≤ (Utxo.total inputs).amount c := by
  have bound := target.amount_le c
  rw [Utxo.amount_total]
  refine Nat.le_min.mpr ⟨?_, bound⟩
  obtain ⟨chosen, selection, funded⟩ := plan.fund_cases funded
  have reached := Selection.le_held_of_largestFirst selection c
  rcases funded with ⟨_, rfl⟩ | ⟨nothing, _⟩
  · exact Nat.le_trans reached (Nat.le_of_eq (Utxo.held_perm (Ranked.sortOn_perm _ _).symm c))
  · rw [nothing] at reached
    exact Nat.le_trans reached (Nat.zero_le _)

theorem exists_draw_of_funded (largest : s.select = Selection.largestFirst) {spend : Value}
    {inputs : List Utxo} (spend_eq : plan.spend state.fee = .ok spend)
    (funded : plan.fund s.select (plan.target spend state.changeExtra) = .ok inputs) :
    Nonempty (Draw s plan state) := by
  have covered (c : Component) : spend.amount c ≤ (Utxo.total inputs + plan.implicit).amount c := by
    have reached := plan.fund_covers (largest ▸ funded) c
    have bound := spend.amount_le c
    rw [Plan.target, Value.amount_saturatingSub, Value.amount_add] at reached
    rw [Value.amount_add]
    omega
  obtain ⟨rest, rest_eq⟩ := Value.exists_checkedSub covered
  exact ⟨⟨spend, inputs, rest, spend_eq, funded, rest_eq⟩⟩

theorem draw_or_error (largest : s.select = Selection.largestFirst) (d : Draft) (pools : Pools)
    (plan : Plan) (state : State) : Nonempty (Draw s plan state) ∨
      ∃ e, round s d pools plan state = .error e ∧ (plan.spend state.fee = .error e ∨
        ∃ spend, plan.spend state.fee = .ok spend ∧
          plan.fund s.select (plan.target spend state.changeExtra) = .error e) := by
  cases spend_eq : plan.spend state.fee with
  | error e =>
    refine .inr ⟨e, ?_, .inl rfl⟩
    rw [round, spend_eq]
    rfl
  | ok spend =>
    cases funded : plan.fund s.select (plan.target spend state.changeExtra) with
    | error e =>
      refine .inr ⟨e, ?_, .inr ⟨spend, rfl, funded⟩⟩
      rw [round, spend_eq]
      change (plan.fund s.select (plan.target spend state.changeExtra) >>= _) = _
      rw [funded]
      rfl
    | ok inputs => exact .inl (exists_draw_of_funded largest spend_eq funded)

theorem Draw.le_rest (largest : s.select = Selection.largestFirst) (r : Draw s plan state) :
    min state.changeExtra.toNat (UInt64.size - 1 - r.spend.lovelace.toNat) ≤
      r.rest.lovelace.toNat := by
  have reached := plan.fund_covers (largest ▸ r.funded) .lovelace
  have difference := Value.amount_of_checkedSub r.rest_eq .lovelace
  have bound := r.spend.amount_le .lovelace
  rw [Plan.target, Value.amount_saturatingSub, Value.amount_add,
    Value.amount_ofLovelace_lovelace] at reached
  rw [Value.amount_add] at difference
  change min _ (_ - r.spend.amount .lovelace) ≤ r.rest.amount .lovelace
  omega

end Balance

end ConwayTx
