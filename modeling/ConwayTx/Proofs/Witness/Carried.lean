import ConwayTx.Proofs.Witness.Pairing

namespace ConwayTx

namespace Witnesses

def scripts (w : Witnesses) : List Script :=
  w.native.map .native ++
    (w.v1.map (.plutus .v1) ++ (w.v2.map (.plutus .v2) ++ w.v3.map (.plutus .v3)))

theorem scripts_addScript (w : Witnesses) (s : Script) :
    (w.addScript s).scripts.Perm (s :: w.scripts) := by
  have behind (front : List Script) {xs ys : List Script} (perm : xs.Perm (s :: ys)) :
      (front ++ xs).Perm (s :: (front ++ ys)) :=
    (perm.append_left front).trans List.perm_middle
  have last (xs : List Script) : (xs ++ [s]).Perm (s :: xs) := List.perm_append_singleton s xs
  cases s with
  | native n => simp [scripts, addScript]
  | plutus language code =>
    cases language <;> simp only [scripts, addScript, List.map_append, List.map_singleton]
    case v1 => exact behind _ ((last _).append_right _)
    case v2 => exact behind _ (behind _ ((last _).append_right _))
    case v3 => exact behind _ (behind _ (behind _ (last _)))

theorem scripts_foldl_addScript (added : List Script) (w : Witnesses) :
    (added.foldl addScript w).scripts.Perm (added ++ w.scripts) := by
  induction added generalizing w with
  | nil => exact List.Perm.refl _
  | cons s rest ih =>
    have others := (ih (w.addScript s)).trans ((scripts_addScript w s).append_left rest)
    exact others.trans List.perm_middle

end Witnesses

theorem Resolution.scripts_witnesses (r : Resolution) : r.witnesses.scripts.Perm r.scripts := by
  have added := Witnesses.scripts_foldl_addScript r.scripts
    { datums := r.datums, redeemers := r.redeemers }
  have none : Witnesses.scripts { datums := r.datums, redeemers := r.redeemers } = [] := rfl
  rwa [none, List.append_nil] at added

def Tx.broughtScripts (tx : Tx) (d : Draft) (spent : List Utxo) : List Script :=
  (tx.body.referenceInputs.keys.filterMap d.referenceInputs.get? ++ spent).filterMap
    (·.output.scriptRef)

namespace Draft

variable {d : Draft}

theorem ScriptsByHash.carried_hashes (scripts : d.ScriptsByHash)
    (referenced : OrdMap ScriptHash Script) :
    (d.carriedScripts referenced).map Script.hash =
      (d.scripts.filter (fun h _ => !referenced.contains h)).keys := by
  apply OrdMap.map_values_eq_keys
  intro h script found
  rw [OrdMap.get?_filter, Option.filter_eq_some_iff] at found
  exact scripts h script found.1

end Draft

namespace Balance

variable {s : Setup} {d : Draft} {pools : Pools} {plan : Plan} {state : State} {tx : Tx}

namespace Accepted

variable (a : Accepted s d pools plan state tx)
include a

theorem tx_scripts :
    tx.witnesses.scripts.Perm (d.carriedScripts (d.referencedScripts a.inputs)) := by
  obtain ⟨r, resolved, same⟩ := a.prepared.resolved
  have scripts : a.parts.resolution.scripts = r.scripts := (congrArg Resolution.scripts same :)
  rw [a.tx_witnesses, ← Draft.resolve_scripts resolved, ← scripts]
  exact a.parts.resolution.scripts_witnesses

theorem tx_broughtScripts :
    tx.broughtScripts d a.inputs = (d.referenced ++ a.inputs).filterMap (·.output.scriptRef) := by
  have keys : tx.body.referenceInputs.keys = d.referenceInputs.keys :=
    a.of_body (f := fun body => body.referenceInputs.keys) (fun _ => OrdMap.keys_mapValues _ _)
  rw [Tx.broughtScripts, keys, OrdMap.filterMap_get?_keys, Draft.referenced]

theorem mem_brought_hashes {h : ScriptHash} :
    h ∈ (tx.broughtScripts d a.inputs).map Script.hash ↔
      h ∈ (d.referencedScripts a.inputs).keys := by
  rw [a.tx_broughtScripts, Draft.mem_referencedScripts_keys]

theorem mem_carried_hashes (scripts : d.ScriptsByHash) {h : ScriptHash} :
    h ∈ tx.witnesses.scripts.map Script.hash ↔
      (∃ script, d.scripts.get? h = some script) ∧ h ∉ (d.referencedScripts a.inputs).keys := by
  rw [(a.tx_scripts.map Script.hash).mem_iff, scripts.carried_hashes, OrdMap.mem_keys_iff]
  simp [OrdMap.contains, ← OrdMap.get?_eq_none_iff, Option.filter_eq_some_iff]

end Accepted

/-- The transaction carries no script twice, and none that an output brings along; and every script
that has to agree to one of its actions is either carried or brought along. -/
theorem scripts_supplied_once (reachable : d.Reachable) (h : balance s d pools = .ok tx) :
    ∃ spent : List Utxo, tx.body.inputs = OrdSet.ofList (spent.map Utxo.ref) ∧
      (s.select.Lawful → spent = pools.spent d tx) ∧
      (tx.witnesses.scripts.map Script.hash).Nodup ∧
      (∀ script ∈ tx.witnesses.scripts, ∀ other ∈ tx.broughtScripts d spent,
        script.hash ≠ other.hash) ∧
      ∀ purpose hash, some hash ∈ tx.guards spent purpose →
        Xor (∃ script ∈ tx.witnesses.scripts, script.hash = hash)
          (∃ script ∈ tx.broughtScripts d spent, script.hash = hash) := by
  obtain ⟨plan, state, made, ⟨a⟩⟩ := balance_ok h
  have scripts := reachable.scriptsByHash
  have carried {hash : ScriptHash} := a.mem_carried_hashes scripts (h := hash)
  have brought {hash : ScriptHash} := a.mem_brought_hashes (h := hash)
  simp only [← List.mem_map]
  refine ⟨a.inputs, a.tx_inputs, a.inputs_eq_spent (plan_ok made) reachable.pinsByRef, ?_, ?_, ?_⟩
  · rw [(a.tx_scripts.map Script.hash).nodup_iff, scripts.carried_hashes]
    exact OrdMap.keys_nodup _
  · intro script mem other there same
    have absent := (carried.mp (List.mem_map_of_mem mem)).2
    exact absent (brought.mp (same ▸ List.mem_map_of_mem there))
  · intro purpose hash guarded
    rw [carried, brought]
    obtain ⟨r, ⟨resolves⟩, _⟩ := a.resolves
    obtain ⟨q, mem, rfl⟩ := (a.required_iff_guards resolves).mpr
      (List.mem_flatMap.mpr ⟨purpose, Purpose.mem_all purpose, guarded⟩)
    obtain ⟨script, found, _⟩ := resolves.met q mem
    have there := Draft.exists_scriptFor_iff.mp ⟨script, found⟩
    tauto

end Balance

namespace Sample

def vouched : Script := .native (.pubkey (hash 1))

def supplying : List Intent :=
  [.changeAddress (.value (keyAddress 3)),
    .collateralChangeAddress (.value (keyAddress 3)),
    .utxos [utxo 0 (keyAddress 1) (.ofLovelace 10000000)],
    .collateralUtxos [utxo 1 (keyAddress 1) (.ofLovelace 5000000)],
    .script vouched,
    .script compiled,
    .referenceInput ⟨⟨hash 1, 2⟩, {
      address := keyAddress 1, value := .ofLovelace 2000000, scriptRef := some compiled }⟩,
    .deregister (.value ⟨.testnet, .script vouched.hash⟩) none,
    .deregister (.value ⟨.testnet, .script compiled.hash⟩) (some (.list []))]

theorem supplying_passes : (run supplying).satisfies (fun (w, tx) =>
    tx.witnesses.scripts.map Script.hash == [vouched.hash] &&
      tx.guards (w.pools.spent w.draft tx) .cert == [some vouched.hash, some compiled.hash]) =
    true := by
  decide +kernel

end Sample

theorem Balance.scripts_supplied_once_supplying : ∃ w tx,
    Sample.run Sample.supplying = .ok (w, tx) ∧
    tx.witnesses.scripts.map Script.hash = [Sample.vouched.hash] ∧
    (tx.witnesses.scripts.map Script.hash).Nodup ∧
    (¬ ∃ script ∈ tx.broughtScripts w.draft (w.pools.spent w.draft tx),
      script.hash = Sample.vouched.hash) ∧
    Xor (∃ script ∈ tx.witnesses.scripts, script.hash = Sample.compiled.hash)
      (∃ script ∈ tx.broughtScripts w.draft (w.pools.spent w.draft tx),
        script.hash = Sample.compiled.hash) := by
  obtain ⟨⟨w, tx⟩, ran, passes⟩ := Except.satisfies_iff.mp Sample.supplying_passes
  simp only [Bool.and_eq_true, beq_iff_eq] at passes
  obtain ⟨carried, guards⟩ := passes
  obtain ⟨reachable, balanced⟩ := Sample.run_ok ran
  obtain ⟨spent, _, named, nodup, apart, once⟩ := scripts_supplied_once reachable balanced
  obtain rfl := named Selection.largestFirst_lawful
  refine ⟨w, tx, ran, carried, nodup, ?_, once .cert _ (by rw [guards]; simp)⟩
  rintro ⟨other, there, same⟩
  obtain ⟨script, mem, vouches⟩ : ∃ script ∈ tx.witnesses.scripts,
      script.hash = Sample.vouched.hash := by
    rw [← List.mem_map, carried]
    exact List.mem_singleton_self _
  exact apart script mem other there (vouches.trans same.symm)

end ConwayTx
