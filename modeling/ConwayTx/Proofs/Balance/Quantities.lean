import ConwayTx.Proofs.Balance.MinLovelace
import ConwayTx.Proofs.Balance.Request
import ConwayTx.Proofs.Intent
import ConwayTx.Proofs.Selection.Coverage
import ConwayTx.Proofs.Session

namespace ConwayTx

namespace Balance

variable {s : Setup} {d : Draft} {pools : Pools} {plan : Plan} {state : State} {tx : Tx}

namespace Accepted

variable (a : Accepted s d pools plan state tx)
include a

theorem change_pruned {o : TxOut} (made : a.change = some o) : o.value.assets.Pruned := by
  rw [a.settled.change_eq made]
  exact Value.checkedSub_pruned a.rest_eq

theorem collateralReturn_pruned {o : TxOut} (returned : tx.body.collateralReturn = some o) :
    o.value.assets.Pruned := by
  rw [a.tx_collateralReturn] at returned
  obtain ⟨c, found, change⟩ := Option.bind_eq_some_iff.mp returned
  obtain ⟨selected⟩ := a.selected found
  rw [selected.split.left o change]
  exact Value.saturatingSub_pruned _ _

theorem tx_assets (planned : Planned s.params d pools plan) :
    tx.body.outputs.map (·.value.assets) =
      (d.outputs.map TxOut.value).map Value.assets ++ a.change.toList.map (·.value.assets) := by
  rw [a.tx_outputs_eq planned, List.map_append, List.map_map, List.map_map]
  rfl

end Accepted

/-- The assets of the outputs are those of the payments that were asked for, in turn, and those of
the change. Neither the change nor what comes back of collateral holds a zero quantity or a policy
without a name, and the outputs hold none if and only if the payments hold none. -/
theorem outputs_pruned_iff {magic : Option UInt32} {is : List Intent}
    (h : Session.outcome s magic is = .ok tx) :
    ∃ change : Option TxOut,
      tx.body.outputs.map (·.value.assets) =
        (is.filterMap Intent.payment?).map Value.assets ++
          change.toList.map (·.value.assets) ∧
      (∀ o, change = some o → o.value.assets.Pruned) ∧
      (∀ o, tx.body.collateralReturn = some o → o.value.assets.Pruned) ∧
      ((∀ o ∈ tx.body.produced, o.value.assets.Pruned) ↔
        ∀ v ∈ is.filterMap Intent.payment?, v.assets.Pruned) := by
  obtain ⟨w, made, balanced⟩ := Session.outcome_ok h
  obtain ⟨plan, state, planned, ⟨a⟩⟩ := balance_ok balanced
  have paid : w.draft.outputs.map TxOut.value = is.filterMap Intent.payment? :=
    Intent.performAll_payments made
  have assets := a.tx_assets (plan_ok planned)
  rw [paid] at assets
  refine ⟨a.change, assets, fun o => a.change_pruned, fun o => a.collateralReturn_pruned, ?_⟩
  have sent : (∀ o ∈ tx.body.outputs, o.value.assets.Pruned) ↔
      ∀ m ∈ tx.body.outputs.map (·.value.assets), Assets.Pruned m := List.forall_mem_map.symm
  rw [TxBody.produced, List.forall_mem_append, sent, assets]
  simp only [List.forall_mem_append, List.forall_mem_map, Option.mem_toList]
  have change : ∀ o, a.change = some o → o.value.assets.Pruned := fun o => a.change_pruned
  have returned : ∀ o, tx.body.collateralReturn = some o → o.value.assets.Pruned :=
    fun o => a.collateralReturn_pruned
  exact ⟨fun all => all.1.1, fun payments => ⟨⟨payments, change⟩, returned⟩⟩

end Balance

namespace Sample

def blank : Value := ⟨2000000, (tokens 0 3).assets.set token.policy ⟨[3], by decide⟩ 0⟩

def sending : List Intent :=
  [.changeAddress (.value (keyAddress 3)),
    .utxos [utxo 0 (keyAddress 1) (tokens 10000000 5)],
    .send (.value (keyAddress 2)) blank]

theorem sending_passes : (Session.outcome setup none sending).satisfies (fun tx =>
    tx.body.outputs.length == 2) = true := by
  decide +kernel

end Sample

theorem Balance.outputs_pruned_sending :
    ∃ tx, Session.outcome Sample.setup none Sample.sending = .ok tx ∧
      (∃ o ∈ tx.body.outputs, o.value.assets = Sample.blank.assets) ∧
      ¬ ∀ o ∈ tx.body.produced, o.value.assets.Pruned := by
  obtain ⟨tx, built, _⟩ := Except.satisfies_iff.mp Sample.sending_passes
  obtain ⟨change, assets, _, _, iff⟩ := outputs_pruned_iff built
  refine ⟨tx, built, ?_, fun pruned => ?_⟩
  · apply List.mem_map.mp
    rw [assets]
    exact List.mem_append_left _ List.mem_cons_self
  · have blank : Sample.blank.assets.Pruned := iff.mp pruned _ List.mem_cons_self
    exact absurd blank (by decide)

end ConwayTx
