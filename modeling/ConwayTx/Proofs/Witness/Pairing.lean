import ConwayTx.Proofs.Witness.Guards

namespace ConwayTx

open Ranked (Precedes)

def Tx.guardAt (tx : Tx) (spent : List Utxo) (p : RedeemerPointer) : Option ScriptHash :=
  ((tx.guards spent p.purpose)[p.index.toNat]?).join

def Draft.supplied (d : Draft) (tx : Tx) (p : RedeemerPointer) : Option PlutusData :=
  let i := p.index.toNat
  match p.purpose with
  | .spend => (tx.body.inputs.keys[i]?).bind (fun r => (d.inputs.get? r).bind Pinned.redeemer)
  | .mint => (tx.body.mint.keys[i]?).bind d.mintRedeemers.get?
  | .cert => (d.certificates[i]?).bind Guarded.redeemer
  | .reward =>
    (tx.body.withdrawals.keys[i]?).bind (fun account =>
      (d.withdrawals.get? account).bind Guarded.redeemer)
  | .vote => (tx.body.votes.keys[i]?).bind d.voteRedeemers.get?
  | .propose => (d.proposals[i]?).bind Guarded.redeemer

theorem Draft.map_unpriced_redeemerOf (qs : List Requirement) :
    (qs.filterMap redeemerOf).map Redeemer.unpriced = qs.filterMap redeemerOf := by
  rw [List.map_filterMap]
  congr 1
  funext q
  cases redeemer : q.redeemer <;> simp [redeemerOf, redeemer, Redeemer.unpriced]

namespace Draft.Resolves

variable {d : Draft} {inputs : List Utxo} {r : Resolution} (resolves : d.Resolves inputs r)
  (few : ∀ purpose, (d.actions inputs purpose).length < UInt32.size)
include few

theorem requirements_strict :
    resolves.requirements.Pairwise (fun p q => Precedes p.pointer q.pointer) := by
  rw [resolves.listed, List.pairwise_flatMap]
  constructor
  · intro purpose _
    exact Requirement.listed_strict (few purpose)
  · have order : Purpose.all.Pairwise (fun p q => p.code < q.code) := by decide
    refine order.imp ?_
    intro p q before x hx y hy
    obtain ⟨_, _, _, _, hx, _⟩ := Requirement.mem_listed.mp hx
    obtain ⟨_, _, _, _, hy, _⟩ := Requirement.mem_listed.mp hy
    simp [Precedes, Ranked.rank, List.cons_lt_cons_iff, hx, hy, before]

theorem mem_requirements {q : Requirement} :
    q ∈ resolves.requirements ↔ ∃ a, (d.actions inputs q.pointer.purpose)[q.pointer.index.toNat]? =
      some a ∧ a.script = some q.script ∧ q.redeemer = a.redeemer := by
  rw [resolves.requirement_iff]
  constructor
  · rintro ⟨i, a, at_i, script, index, redeemer⟩
    have bound := (List.getElem?_eq_some_iff.mp at_i).1
    rw [index, UInt32.toNat_ofNat_of_lt' (Nat.lt_trans bound (few _))]
    exact ⟨a, at_i, script, redeemer⟩
  · rintro ⟨a, at_i, script, redeemer⟩
    exact ⟨_, a, at_i, script, UInt32.ofNat_toNat.symm, redeemer⟩

theorem redeemers_strict :
    ((resolves.requirements.filterMap redeemerOf).map Redeemer.pointer).Pairwise Precedes := by
  rw [List.pairwise_map, List.pairwise_filterMap]
  refine (resolves.requirements_strict few).imp ?_
  intro p q before x hx y hy
  obtain ⟨_, _, rfl⟩ := Option.map_eq_some_iff.mp hx
  obtain ⟨_, _, rfl⟩ := Option.map_eq_some_iff.mp hy
  exact before

theorem redeemers_eq : r.redeemers = resolves.requirements.filterMap redeemerOf := by
  rw [resolves.redeemers, Ranked.sortOn_of_sorted (resolves.redeemers_strict few)]

end Draft.Resolves

namespace Balance

variable {s : Setup} {d : Draft} {pools : Pools} {plan : Plan} {state : State} {tx : Tx}

namespace Accepted

theorem supplied_eq (planned : Planned s.params d pools plan) (pins : d.PinsByRef)
    (lawful : s.select.Lawful) (a : Accepted s d pools plan state tx) (p : RedeemerPointer) :
    d.supplied tx p =
      ((d.actions a.inputs p.purpose)[p.index.toNat]?).bind Action.redeemer := by
  obtain ⟨purpose, index⟩ := p
  cases purpose with
  | spend =>
    rw [Draft.supplied, a.tx_inputs_keys planned pins lawful, Draft.actions, List.getElem?_map,
      List.getElem?_map]
    cases a.inputs[index.toNat]? <;> rfl
  | mint =>
    rw [Draft.supplied, a.tx_mint, Draft.actions, List.getElem?_map]
    cases d.mint.keys[index.toNat]? <;> rfl
  | cert =>
    rw [Draft.supplied, Draft.actions, List.getElem?_map]
    cases d.certificates[index.toNat]? <;> rfl
  | reward =>
    simp only [Draft.supplied, a.tx_withdrawals, OrdMap.keys_mapValues]
    rw [OrdMap.keys, Draft.actions, List.getElem?_map, List.getElem?_map]
    cases found : d.withdrawals.toList[index.toNat]? with
    | none => rfl
    | some entry =>
      have there : d.withdrawals.get? entry.1 = some entry.2 :=
        OrdMap.get?_eq_some_iff.mpr (List.mem_of_getElem? found)
      simp [there]
  | vote =>
    rw [Draft.supplied, a.tx_votes, Draft.actions, List.getElem?_map]
    cases d.votes.keys[index.toNat]? <;> rfl
  | propose =>
    rw [Draft.supplied, Draft.actions, List.getElem?_map]
    cases d.proposals[index.toNat]? <;> rfl

variable (a : Accepted s d pools plan state tx)
include a

theorem guardAt_eq_some_iff {p : RedeemerPointer} {h : ScriptHash} :
    tx.guardAt a.inputs p = some h ↔
      ∃ action, (d.actions a.inputs p.purpose)[p.index.toNat]? = some action ∧
        action.script = some h := by
  rw [Tx.guardAt, ← a.actions_script, List.getElem?_map]
  cases (d.actions a.inputs p.purpose)[p.index.toNat]? <;> simp

theorem redeemers_unpriced {r : Resolution} (same : a.parts.resolution.unpriced = r.unpriced) :
    tx.witnesses.redeemers.map Redeemer.unpriced = r.redeemers.map Redeemer.unpriced := by
  rw [a.tx_redeemers]
  exact congrArg Resolution.redeemers same

theorem mem_redeemers {r : Resolution} (resolves : d.Resolves a.inputs r)
    (same : a.parts.resolution.unpriced = r.unpriced) (p : RedeemerPointer) (data : PlutusData) :
    (∃ x ∈ tx.witnesses.redeemers, x.pointer = p ∧ x.data = data) ↔
      ∃ q ∈ resolves.requirements, q.pointer = p ∧ q.redeemer = some data := by
  -- The order of the redeemers does not matter here, so pointers may even repeat.
  have unpriced : (tx.witnesses.redeemers.map Redeemer.unpriced).Perm
      (resolves.requirements.filterMap Draft.redeemerOf) := by
    have sorted := (Ranked.sortOn_perm Redeemer.pointer
      (resolves.requirements.filterMap Draft.redeemerOf)).map Redeemer.unpriced
    rwa [← resolves.redeemers, ← a.redeemers_unpriced same, Draft.map_unpriced_redeemerOf]
      at sorted
  constructor
  · rintro ⟨x, mem, rfl, rfl⟩
    have mem := unpriced.mem_iff.mp (List.mem_map_of_mem (f := Redeemer.unpriced) mem)
    obtain ⟨q, mem, found⟩ := List.mem_filterMap.mp mem
    obtain ⟨data, redeemer, found⟩ := Option.map_eq_some_iff.mp found
    obtain ⟨pointer, rfl, _⟩ := Redeemer.mk.inj found
    exact ⟨q, mem, pointer, redeemer⟩
  · rintro ⟨q, mem, rfl, redeemer⟩
    have mem : (⟨q.pointer, data, .zero⟩ : Redeemer) ∈
        resolves.requirements.filterMap Draft.redeemerOf :=
      List.mem_filterMap.mpr ⟨q, mem, by rw [Draft.redeemerOf, redeemer]; rfl⟩
    obtain ⟨x, mem, found⟩ := List.mem_map.mp (unpriced.mem_iff.mpr mem)
    obtain ⟨pointer, data, _⟩ := Redeemer.mk.inj found
    exact ⟨x, mem, pointer, data⟩

theorem pointed_iff_compiled {r : Resolution} (resolves : d.Resolves a.inputs r)
    (same : a.parts.resolution.unpriced = r.unpriced)
    (few : ∀ purpose, (d.actions a.inputs purpose).length < UInt32.size) (p : RedeemerPointer) :
    (∃ x ∈ tx.witnesses.redeemers, x.pointer = p) ↔
      ∃ hash language code, tx.guardAt a.inputs p = some hash ∧
        d.scriptFor a.inputs hash = some (.plutus language code) := by
  have paired := a.mem_redeemers resolves same
  constructor
  · rintro ⟨x, mem, rfl⟩
    obtain ⟨q, mem, pointer, redeemer⟩ := (paired _ _).mp ⟨x, mem, rfl, rfl⟩
    obtain ⟨action, at_pointer, script, _⟩ := (resolves.mem_requirements few).mp mem
    rw [pointer] at at_pointer
    have guard := a.guardAt_eq_some_iff.mpr ⟨action, at_pointer, script⟩
    obtain ⟨language, code, known⟩ :=
      (resolves.met q mem).isSome_redeemer_iff.mp (by rw [redeemer]; rfl)
    exact ⟨q.script, language, code, guard, known⟩
  · rintro ⟨hash, language, code, guard, known⟩
    obtain ⟨action, at_pointer, script⟩ := a.guardAt_eq_some_iff.mp guard
    have mem : (⟨hash, p, action.redeemer⟩ : Requirement) ∈ resolves.requirements :=
      (resolves.mem_requirements few).mpr ⟨action, at_pointer, script, rfl⟩
    obtain ⟨data, redeemer⟩ := Option.isSome_iff_exists.mp
      ((resolves.met _ mem).isSome_redeemer_iff.mpr ⟨language, code, known⟩)
    obtain ⟨x, mem, pointer, _⟩ := (paired p data).mpr ⟨_, mem, rfl, redeemer⟩
    exact ⟨x, mem, pointer⟩

end Accepted

/-- The redeemers of a balanced transaction are in strict order, they are there for the actions that
compiled scripts guard, and each of them is the one that was supplied for its action. -/
theorem redeemers_paired (reachable : d.Reachable) (lawful : s.select.Lawful)
    (h : balance s d pools = .ok tx)
    (few : ∀ purpose, (tx.guards (pools.spent d tx) purpose).length < UInt32.size) :
    (pools.spent d tx).map Utxo.ref = tx.body.inputs.keys ∧
    (tx.witnesses.redeemers.map Redeemer.pointer).Pairwise Precedes ∧
    (∀ p, (∃ r ∈ tx.witnesses.redeemers, r.pointer = p) ↔
      ∃ hash language code, tx.guardAt (pools.spent d tx) p = some hash ∧
        d.scriptFor (pools.spent d tx) hash = some (.plutus language code)) ∧
    ∀ r ∈ tx.witnesses.redeemers, d.supplied tx r.pointer = some r.data := by
  obtain ⟨plan, state, made, ⟨a⟩⟩ := balance_ok h
  have planned := plan_ok made
  have pins := reachable.pinsByRef
  have keys := a.tx_inputs_keys planned pins lawful
  have supplied := a.supplied_eq planned pins lawful
  rw [← a.inputs_eq_spent planned pins lawful] at few ⊢
  obtain ⟨r, ⟨resolves⟩, same⟩ := a.resolves
  have few : ∀ purpose, (d.actions a.inputs purpose).length < UInt32.size := by
    intro purpose
    have bound := few purpose
    rwa [← a.actions_script, List.length_map] at bound
  refine ⟨keys.symm, ?_, a.pointed_iff_compiled resolves same few, ?_⟩
  · have pointers : tx.witnesses.redeemers.map Redeemer.pointer =
        (tx.witnesses.redeemers.map Redeemer.unpriced).map Redeemer.pointer := by
      rw [List.map_map]
      rfl
    rw [pointers, a.redeemers_unpriced same, resolves.redeemers_eq few,
      Draft.map_unpriced_redeemerOf]
    exact resolves.redeemers_strict few
  · intro x mem
    obtain ⟨q, mem, pointer, redeemer⟩ :=
      (a.mem_redeemers resolves same _ _).mp ⟨x, mem, rfl, rfl⟩
    obtain ⟨action, at_pointer, _, came⟩ := (resolves.mem_requirements few).mp mem
    rw [pointer] at at_pointer
    rw [supplied, at_pointer, Option.bind_some, ← came, redeemer]

end Balance

namespace Sample

def compiled : Script := .plutus .v3 [1]

def leaving : List Intent :=
  [.changeAddress (.value (keyAddress 3)),
    .collateralChangeAddress (.value (keyAddress 3)),
    .utxos [utxo 0 (keyAddress 1) (.ofLovelace 10000000)],
    .collateralUtxos [utxo 1 (keyAddress 1) (.ofLovelace 5000000)],
    .script compiled,
    .deregister (.value ⟨.testnet, .key (hash 1)⟩) none,
    .deregister (.value ⟨.testnet, .script compiled.hash⟩) (some (.list []))]

theorem leaving_passes : (run leaving).satisfies (fun (w, tx) =>
    tx.witnesses.redeemers.map Redeemer.pointer == [⟨.cert, 1⟩] &&
      Purpose.all.all (fun purpose =>
        decide ((tx.guards (w.pools.spent w.draft tx) purpose).length < UInt32.size))) = true := by
  decide +kernel

end Sample

theorem Balance.redeemers_paired_leaving : ∃ w tx, Sample.run Sample.leaving = .ok (w, tx) ∧
    (∃ r ∈ tx.witnesses.redeemers, r.pointer = ⟨.cert, 1⟩ ∧
      w.draft.supplied tx ⟨.cert, 1⟩ = some r.data) ∧
    (∃ hash language code, tx.guardAt (w.pools.spent w.draft tx) ⟨.cert, 1⟩ = some hash ∧
      w.draft.scriptFor (w.pools.spent w.draft tx) hash = some (.plutus language code)) ∧
    ¬ ∃ hash language code, tx.guardAt (w.pools.spent w.draft tx) ⟨.cert, 0⟩ = some hash ∧
      w.draft.scriptFor (w.pools.spent w.draft tx) hash = some (.plutus language code) := by
  obtain ⟨⟨w, tx⟩, ran, passes⟩ := Except.satisfies_iff.mp Sample.leaving_passes
  simp only [Bool.and_eq_true, beq_iff_eq, List.all_eq_true, decide_eq_true_eq] at passes
  obtain ⟨pointers, few⟩ := passes
  obtain ⟨reachable, balanced⟩ := Sample.run_ok ran
  have few : ∀ purpose, (tx.guards (w.pools.spent w.draft tx) purpose).length < UInt32.size :=
    fun purpose => few purpose (by cases purpose <;> decide)
  obtain ⟨_, _, paired, supplied⟩ :=
    redeemers_paired reachable Selection.largestFirst_lawful balanced few
  obtain ⟨r, others, only, pointer, none⟩ := List.map_eq_cons_iff.mp pointers
  obtain rfl := List.map_eq_nil_iff.mp none
  have mem : r ∈ tx.witnesses.redeemers := by rw [only]; exact List.mem_cons_self
  refine ⟨w, tx, ran, ⟨r, mem, pointer, pointer ▸ supplied r mem⟩, ?_, ?_⟩
  · exact (paired _).mp ⟨r, mem, pointer⟩
  · intro guarded
    obtain ⟨x, there, first⟩ := (paired _).mpr guarded
    rw [only, List.mem_singleton] at there
    rw [there, pointer] at first
    cases first

end ConwayTx
