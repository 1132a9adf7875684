import ConwayTx.Proofs.Balance.Conservation

namespace ConwayTx

namespace Draft

def Misfiles (d : Draft) (r : OutRef) : Prop :=
  ∃ key pin, d.inputs.get? key = some pin ∧ pin.utxo.ref = r ∧ key ≠ r

theorem PinsByRef.not_misfiles {d : Draft} (pins : d.PinsByRef) (r : OutRef) : ¬ d.Misfiles r := by
  rintro ⟨key, pin, found, rfl, other⟩
  exact other (pins key pin found).symm

theorem count_pinned_le {d : Draft} {r : OutRef} (h : ¬ d.Misfiles r) :
    (d.pinned.map Utxo.ref).count r ≤ d.inputs.keys.count r := by
  rw [pinned, OrdMap.values, OrdMap.keys, List.map_map, List.map_map, List.count_eq_countP,
    List.count_eq_countP, List.countP_map, List.countP_map]
  apply List.countP_mono_left
  rintro ⟨key, pin⟩ mem same
  have found := OrdMap.get?_eq_some_iff.mpr mem
  simp only [Function.comp_apply, beq_iff_eq] at same ⊢
  by_contra other
  exact h ⟨key, pin, found, same, other⟩

end Draft

namespace Pools

structure Spare (pools : Pools) (d : Draft) (u : Utxo) : Prop where
  offered : u ∈ pools.available.getD []
  unguarded : u.output.address.isScript = false
  unreferenced : u.ref ∉ d.referenceInputs.keys
  unreserved : ∀ v ∈ pools.collateral.getD [], v.ref ≠ u.ref

variable {pools : Pools} {d : Draft} {us : List Utxo}

theorem candidates_spare (h : pools.candidates d = some us) : ∀ u ∈ us, pools.Spare d u := by
  intro u mem
  have allowed := candidates_selectable h u mem
  simp only [selectable, OrdMap.contains, Bool.and_eq_true, Bool.not_eq_true',
    Option.isSome_eq_false_iff, Option.isNone_iff_eq_none, OrdMap.get?_eq_none_iff] at allowed
  obtain ⟨⟨⟨_, unreferenced⟩, unreserved⟩, unguarded⟩ := allowed
  obtain ⟨available, offered, rfl⟩ := Option.map_eq_some_iff.mp h
  refine ⟨?_, unguarded, unreferenced, fun v kept same => unreserved ?_⟩
  · rw [offered]
    exact List.mem_of_mem_filter (distinctFrom_fresh u mem).1
  · rw [collateralRefs, OrdSet.mem_keys_ofList, ← same]
    exact List.mem_map_of_mem kept

end Pools

namespace Balance

variable {s : Setup} {d : Draft} {pools : Pools} {plan : Plan} {tx : Tx}

theorem Funded.spare {select : Selector} {inputs : List Utxo}
    (planned : Planned s.params d pools plan) (lawful : select.Lawful)
    (funded : Funded plan select inputs) :
    ∃ chosen, inputs.Perm (d.pinned ++ chosen) ∧ (∀ u ∈ chosen, pools.Spare d u) ∧
      (d.inputs.keys ++ chosen.map Utxo.ref).Nodup := by
  obtain ⟨chosen, perm, offered⟩ := funded.drawn
  have offered := offered lawful
  refine ⟨chosen, planned.pinned ▸ perm, fun u mem => ?_, ?_⟩
  · exact Pools.candidates_spare planned.candidates u (offered.subset mem)
  · exact Pools.candidates_apart planned.candidates offered

theorem count_spent_le_one {spent chosen : List Utxo} {r : OutRef}
    (perm : spent.Perm (d.pinned ++ chosen))
    (apart : (d.inputs.keys ++ chosen.map Utxo.ref).Nodup) (filed : ¬ d.Misfiles r) :
    (spent.map Utxo.ref).count r ≤ 1 := by
  have pinned := Draft.count_pinned_le filed
  have once := List.nodup_iff_count_le_one.mp apart r
  rw [List.count_append] at once
  rw [(perm.map Utxo.ref).count_eq, List.map_append, List.count_append]
  omega

/-- The inputs of a transaction are what is pinned and what can be spared. Their values balance it,
and none counts twice: neither the references that outputs are pinned under with those of the
chosen ones, nor, where both agree, those of the outputs themselves. -/
theorem inputs_allowed (largest : s.select = Selection.largestFirst)
    (h : balance s d pools = .ok tx) :
    tx.body.inputs.keys ≠ [] ∧
      (∀ u ∈ d.pinned, u.ref ∈ tx.body.inputs.keys) ∧
      (∀ r ∈ tx.body.inputs.keys, r ∈ d.pinned.map Utxo.ref ∨ ∃ u, pools.Spare d u ∧ u.ref = r) ∧
      ∃ spent chosen : List Utxo, tx.body.inputs = OrdSet.ofList (spent.map Utxo.ref) ∧
        spent.Perm (d.pinned ++ chosen) ∧ (d.inputs.keys ++ chosen.map Utxo.ref).Nodup ∧
        (∀ c, tx.outgoing s.params c = min (tx.incoming s.params spent c) (UInt64.size - 1)) ∧
        (∀ r, ¬ d.Misfiles r → (spent.map Utxo.ref).count r ≤ 1) ∧
        (d.Reachable → (spent.map Utxo.ref).Nodup ∧ spent = pools.spent d tx) := by
  obtain ⟨plan, state, made, ⟨a⟩⟩ := balance_ok h
  have planned := plan_ok made
  have lawful : s.select.Lawful := largest ▸ Selection.largestFirst_lawful
  have funded := Plan.fund_ok a.funded
  obtain ⟨chosen, perm, spare, apart⟩ := funded.spare planned lawful
  have keys (r : OutRef) : r ∈ tx.body.inputs.keys ↔ r ∈ a.inputs.map Utxo.ref := by
    rw [a.tx_inputs, OrdSet.mem_keys_ofList]
  refine ⟨?_, ?_, ?_, a.inputs, chosen, a.tx_inputs, perm, apart, a.outgoing_eq planned, ?_, ?_⟩
  · obtain ⟨u, mem⟩ := List.exists_mem_of_ne_nil _ funded.ne_nil
    exact List.ne_nil_of_mem ((keys u.ref).mpr (List.mem_map_of_mem mem))
  · intro u mem
    have spent := perm.mem_iff.mpr (List.mem_append_left chosen mem)
    exact (keys u.ref).mpr (List.mem_map_of_mem spent)
  · intro r mem
    obtain ⟨u, spent, rfl⟩ := List.mem_map.mp ((keys r).mp mem)
    rcases List.mem_append.mp (perm.mem_iff.mp spent) with pinned | selected
    · exact .inl (List.mem_map_of_mem pinned)
    · exact .inr ⟨u, spare u selected, rfl⟩
  · exact fun r filed => count_spent_le_one perm apart filed
  · intro reachable
    have pins := reachable.pinsByRef
    refine ⟨List.nodup_iff_count_le_one.mpr (fun r => ?_), a.inputs_eq_spent planned pins lawful⟩
    exact count_spent_le_one perm apart (pins.not_misfiles r)

end Balance

namespace Sample

def coins (index : UInt16) (address : Address) : Utxo :=
  utxo index address (.ofLovelace 5000000)

def picking : List Intent :=
  [.changeAddress (.value (keyAddress 3)),
    .collateralUtxos [coins 2 (keyAddress 1)],
    .referenceInput (coins 1 (keyAddress 1)),
    .utxos [coins 4 (keyAddress 1), coins 0 (scriptAddress 1), coins 1 (keyAddress 1),
      coins 2 (keyAddress 1), coins 3 (keyAddress 1), coins 3 (keyAddress 1)],
    .input { utxo := coins 4 (keyAddress 1) },
    .send (.value (keyAddress 2)) (.ofLovelace 7000000)]

set_option maxRecDepth 20000 in
theorem picking_passes : (run picking).satisfies (fun (w, tx) =>
    tx.body.inputs.keys.map (fun r => r.index) == [3, 4] &&
      w.draft.pinned.map (fun u => u.ref.index) == [4]) = true := by
  cbv

end Sample

theorem Balance.inputs_allowed_picking : ∃ w tx, Sample.run Sample.picking = .ok (w, tx) ∧
    tx.body.inputs.keys.map (fun r => r.index) = [3, 4] ∧
    (∃ u, w.pools.Spare w.draft u ∧ u.ref.index = 3) ∧
    ((w.pools.spent w.draft tx).map Utxo.ref).Nodup := by
  obtain ⟨⟨w, tx⟩, ran, passes⟩ := Except.satisfies_iff.mp Sample.picking_passes
  simp only [Bool.and_eq_true, beq_iff_eq] at passes
  obtain ⟨keys, pinned⟩ := passes
  obtain ⟨reachable, balanced⟩ := Sample.run_ok ran
  obtain ⟨_, _, allowed, spent, _, _, _, _, _, _, once⟩ := inputs_allowed rfl balanced
  obtain ⟨nodup, rfl⟩ := once reachable
  refine ⟨w, tx, ran, keys, ?_, nodup⟩
  obtain ⟨r, mem, index⟩ : ∃ r ∈ tx.body.inputs.keys, r.index = 3 := by
    rw [← List.mem_map, keys]
    decide
  rcases allowed r mem with asked | ⟨u, spare, rfl⟩
  · obtain ⟨u, there, rfl⟩ := List.mem_map.mp asked
    have other : u.ref.index ∈ w.draft.pinned.map (fun u => u.ref.index) :=
      List.mem_map_of_mem there
    rw [pinned, List.mem_singleton, index] at other
    cases other
  · exact ⟨u, spare, index⟩

end ConwayTx
