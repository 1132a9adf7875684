import ConwayTx.Proofs.Balance.Request
import ConwayTx.Proofs.Session

namespace ConwayTx

namespace Draft

theorem addInput_referenceInputs (d : Draft) (pin : Pinned) :
    (d.addInput pin).referenceInputs = d.referenceInputs := by
  cases datum : pin.datum <;> simp [addInput, addDatum, datum]

end Draft

namespace Intent

def pins (is : List Intent) : List OutRef := (is.filterMap pinned?).map (·.utxo.ref)

def references (is : List Intent) : List OutRef := (is.filterMap referenced?).map Utxo.ref

@[simp] theorem pins_append (is js : List Intent) : pins (is ++ js) = pins is ++ pins js := by
  rw [pins, List.filterMap_append, List.map_append, pins, pins]

@[simp] theorem references_append (is js : List Intent) :
    references (is ++ js) = references is ++ references js := by
  rw [references, List.filterMap_append, List.map_append, references, references]

variable {d d' : Draft} {i : Intent} {r : OutRef}

namespace Does

theorem mem_inputs_iff (h : i.Does d d') :
    r ∈ d'.inputs.keys ↔ r ∈ d.inputs.keys ∨ r ∈ pins [i] := by
  cases h with
  | input pin =>
    rw [Draft.addInput_inputs, OrdMap.mem_keys_insert, or_comm]
    exact or_congr_right List.mem_singleton.symm
  | other silent keeps => simp [pins, silent.pinned, keeps.inputs]
  | _ => simp [pins, pinned?, Draft.addReferenceInput, Draft.addScript, Draft.addDatum]

theorem mem_referenceInputs_iff (h : i.Does d d') :
    r ∈ d'.referenceInputs.keys ↔ r ∈ d.referenceInputs.keys ∨ r ∈ references [i] := by
  cases h with
  | reference u =>
    rw [Draft.addReferenceInput, OrdMap.mem_keys_insert, or_comm]
    exact or_congr_right List.mem_singleton.symm
  | input pin => simp [references, referenced?, Draft.addInput_referenceInputs]
  | other silent keeps => simp [references, silent.referenced, keeps.referenceInputs]
  | _ => simp [references, referenced?, Draft.addScript, Draft.addDatum]

end Does

theorem performAll_filed {p : Params} {g : Genesis} {w : Work} {is : List Intent}
    (h : performAll p { genesis := g } is = .ok w) (r : OutRef) :
    (r ∈ w.draft.inputs.keys ↔ r ∈ pins is) ∧
      (r ∈ w.draft.referenceInputs.keys ↔ r ∈ references is) := by
  induction is using List.reverseRecOn generalizing w with
  | nil =>
    obtain rfl := Except.pure_eq_ok.mp h
    exact ⟨Iff.rfl, Iff.rfl⟩
  | append_singleton is i ih =>
    obtain ⟨before, made, step⟩ := performAll_append_singleton.mp h
    obtain ⟨pinned, referenced⟩ := ih made
    have does := perform_does step
    constructor
    · rw [does.mem_inputs_iff, pinned, pins_append, List.mem_append]
    · rw [does.mem_referenceInputs_iff, referenced, references_append, List.mem_append]

end Intent

namespace Balance

variable {s : Setup} {d : Draft} {pools : Pools} {plan : Plan} {state : State} {tx : Tx}

theorem Accepted.exists_selected (a : Accepted s d pools plan state tx)
    (planned : Planned s.params d pools plan) (pins : d.PinsByRef) : ∃ selected : List Utxo,
      (∀ r, r ∈ tx.body.inputs.keys ↔ r ∈ d.inputs.keys ∨ r ∈ selected.map Utxo.ref) ∧
      (s.select.Lawful → ∀ u ∈ selected, pools.Spare d u) := by
  obtain ⟨selected, perm, offered⟩ := (Plan.fund_ok a.funded).drawn
  refine ⟨selected, fun r => ?_, fun lawful u mem => ?_⟩
  · rw [a.tx_inputs, OrdSet.mem_keys_ofList, (perm.map Utxo.ref).mem_iff, List.map_append,
      List.mem_append, planned.pinned, pins.pinned_refs]
  · exact Pools.candidates_spare planned.candidates u ((offered lawful).subset mem)

/-- Outputs are referred to just if that was asked for, and spent if that was. Nothing that is
selected is referred to. So what is spent and what is referred to are apart if and only if no output
was asked to be both. -/
theorem references_apart_iff {magic : Option UInt32} {is : List Intent}
    (h : Session.outcome s magic is = .ok tx) :
    (∀ r, r ∈ tx.body.referenceInputs.keys ↔ r ∈ Intent.references is) ∧
      (∀ r ∈ Intent.pins is, r ∈ tx.body.inputs.keys) ∧
      ((∀ r ∈ Intent.pins is, r ∉ tx.body.referenceInputs.keys) ↔
        (Intent.pins is).Disjoint (Intent.references is)) ∧
      (s.select.Lawful →
        (∀ r ∈ tx.body.inputs.keys, r ∉ Intent.pins is → r ∉ tx.body.referenceInputs.keys) ∧
        (tx.body.inputs.keys.Disjoint tx.body.referenceInputs.keys ↔
          (Intent.pins is).Disjoint (Intent.references is))) := by
  obtain ⟨w, made, balanced⟩ := Session.outcome_ok h
  obtain ⟨plan, state, drawn, ⟨a⟩⟩ := balance_ok balanced
  have reachable : w.draft.Reachable := ⟨w, (Work.Reachable.start _).performAll made, rfl⟩
  obtain ⟨selected, spent, spare⟩ := a.exists_selected (plan_ok drawn) reachable.pinsByRef
  have filed := Intent.performAll_filed made
  have references (r : OutRef) : r ∈ tx.body.referenceInputs.keys ↔ r ∈ Intent.references is := by
    rw [a.carries.referenceInputs, (filed r).2]
  have pinned : ∀ r ∈ Intent.pins is, r ∈ tx.body.inputs.keys :=
    fun r pin => (spent r).mpr (.inl ((filed r).1.mpr pin))
  have unreferenced (lawful : s.select.Lawful) : ∀ r ∈ tx.body.inputs.keys,
      r ∉ Intent.pins is → r ∉ tx.body.referenceInputs.keys := by
    intro r mem unpinned
    rw [← (filed r).1] at unpinned
    obtain ⟨u, chosen, rfl⟩ := List.mem_map.mp (((spent r).mp mem).resolve_left unpinned)
    rw [a.carries.referenceInputs]
    exact (spare lawful u chosen).unreferenced
  refine ⟨references, pinned, ?_, fun lawful => ⟨unreferenced lawful, ?_, ?_⟩⟩
  · simp only [references, List.Disjoint]
  · intro apart r pin reference
    exact apart (pinned r pin) ((references r).mpr reference)
  · -- Only what is pinned can meet a reference, so nothing else has to be compared.
    intro apart r mem referred
    by_cases pin : r ∈ Intent.pins is
    · exact apart pin ((references r).mp referred)
    · exact unreferenced lawful r mem pin referred

end Balance

namespace Sample

def clinging : List Intent :=
  [.changeAddress (.value (keyAddress 3)),
    .utxos [],
    .input { utxo := coins 0 (keyAddress 1) },
    .referenceInput (coins 0 (keyAddress 1)),
    .send (.value (keyAddress 2)) (.ofLovelace 2000000)]

theorem clinging_passes : (Session.outcome setup none clinging).satisfies (fun tx =>
    tx.body.outputs.length == 2) = true := by
  decide +kernel

end Sample

theorem Balance.references_apart_iff_clinging :
    ∃ tx, Session.outcome Sample.setup none Sample.clinging = .ok tx ∧
      ∃ r ∈ Intent.pins Sample.clinging,
        r ∈ tx.body.inputs.keys ∧ r ∈ tx.body.referenceInputs.keys := by
  obtain ⟨tx, built, _⟩ := Except.satisfies_iff.mp Sample.clinging_passes
  obtain ⟨references, pinned, _⟩ := references_apart_iff built
  have pin : (Sample.coins 0 (Sample.keyAddress 1)).ref ∈ Intent.pins Sample.clinging :=
    List.mem_singleton_self _
  exact ⟨tx, built, _, pin, pinned _ pin, (references _).mpr (List.mem_singleton_self _)⟩

end ConwayTx
