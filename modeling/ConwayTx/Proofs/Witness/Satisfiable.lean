import ConwayTx.Proofs.Balance.Accepted
import ConwayTx.Proofs.Witness.Resolving

namespace ConwayTx

namespace Draft

/-- What a draft does when it spends these inputs: the script that guards an action, if one does,
and the redeemer that came with the action. -/
inductive Acts (d : Draft) (inputs : List Utxo) : Option ScriptHash → Option PlutusData → Prop
  | spends {u : Utxo} : u ∈ inputs →
    Acts d inputs u.output.scriptHash? ((d.inputs.get? u.ref).bind Pinned.redeemer)
  | mints {policy : PolicyId} : policy ∈ d.mint.keys →
    Acts d inputs (some policy) (d.mintRedeemers.get? policy)
  | certifies {c : Guarded Certificate} : c ∈ d.certificates →
    Acts d inputs c.action.scriptHash? c.redeemer
  | withdraws {account : StakeAddress} {w : Guarded UInt64} : d.withdrawals.get? account = some w →
    Acts d inputs account.credential.scriptHash? w.redeemer
  | votes {voter : Voter} : voter ∈ d.votes.keys →
    Acts d inputs voter.scriptHash? (d.voteRedeemers.get? voter)
  | proposes {p : Guarded Proposal} : p ∈ d.proposals →
    Acts d inputs p.action.action.policy? p.redeemer

/-- The datum that a script in this language reads can be shown to it. One that came with the input
has to match, whatever else is at hand. -/
inductive Readable (d : Draft) (source : DatumSource) (u : Utxo) : Language → Prop
  | inline {language : Language} {data : PlutusData} : u.output.datum = some (.inline data) →
    Readable d source u language
  | supplied {language : Language} {h : DatumHash} {data : PlutusData} :
    u.output.datum = some (.hash h) →
    (d.inputs.get? u.ref).bind Pinned.datum = some data → data.hash = h →
    Readable d source u language
  | attached {language : Language} {h : DatumHash} {data : PlutusData} :
    u.output.datum = some (.hash h) →
    (d.inputs.get? u.ref).bind Pinned.datum = none → d.datums.get? h = some data →
    Readable d source u language
  | known {language : Language} {h : DatumHash} {data : PlutusData} :
    u.output.datum = some (.hash h) →
    (d.inputs.get? u.ref).bind Pinned.datum = none → source h = some data →
    Readable d source u language
  | unneeded : u.output.datum = none → Readable d source u .v3

structure Satisfiable (d : Draft) (source : DatumSource) (inputs : List Utxo) : Prop where
  unguarded : ∀ redeemer, d.Acts inputs none redeemer → redeemer = none
  available : ∀ h redeemer, d.Acts inputs (some h) redeemer →
    (∃ script, d.scripts.get? h = some script) ∨
      ∃ u ∈ d.referenced ++ inputs, ∃ script, u.output.scriptRef = some script ∧ script.hash = h
  redeemed : ∀ h redeemer script, d.Acts inputs (some h) redeemer →
    d.scriptFor inputs h = some script → script.isPlutus = redeemer.isSome
  readable : ∀ u ∈ inputs, ∀ h, u.output.scriptHash? = some h → ∀ language code,
    d.scriptFor inputs h = some (.plutus language code) → d.Readable source u language

variable {d : Draft} {source : DatumSource} {inputs : List Utxo}

theorem acts_iff {a : Action} :
    d.Acts inputs a.script a.redeemer ↔ ∃ purpose, a ∈ d.actions inputs purpose := by
  obtain ⟨script, redeemer⟩ := a
  constructor
  · intro acts
    cases acts with
    | spends mem => exact ⟨.spend, List.mem_map_of_mem mem⟩
    | mints mem => exact ⟨.mint, List.mem_map_of_mem mem⟩
    | certifies mem => exact ⟨.cert, List.mem_map_of_mem mem⟩
    | withdraws found =>
      exact ⟨.reward, List.mem_map_of_mem (OrdMap.get?_eq_some_iff.mp found)⟩
    | votes mem => exact ⟨.vote, List.mem_map_of_mem mem⟩
    | proposes mem => exact ⟨.propose, List.mem_map_of_mem mem⟩
  · rintro ⟨purpose, mem⟩
    cases purpose <;> obtain ⟨_, there, rfl, rfl⟩ := List.mem_map.mp mem
    case spend => exact .spends there
    case mint => exact .mints there
    case cert => exact .certifies there
    case reward => exact .withdraws (OrdMap.get?_eq_some_iff.mpr there)
    case vote => exact .votes there
    case propose => exact .proposes there

end Draft

theorem Utxo.exists_scriptRef_iff {us : List Utxo} {h : ScriptHash} :
    h ∈ (us.filterMap (·.output.scriptRef)).map Script.hash ↔
      ∃ u ∈ us, ∃ script, u.output.scriptRef = some script ∧ script.hash = h := by
  simp only [List.mem_map, List.mem_filterMap]
  constructor
  · rintro ⟨script, ⟨u, mem, found⟩, hash⟩
    exact ⟨u, mem, script, found, hash⟩
  · rintro ⟨u, mem, script, found, hash⟩
    exact ⟨script, ⟨u, mem, found⟩, hash⟩

theorem Requirement.exists_ofActions_iff {purpose : Purpose} {index : Nat} {as : List Action} :
    (∃ qs, ofActions purpose index as = .ok qs) ↔
      ∀ a ∈ as, a.script = none → a.redeemer = none := by
  induction as generalizing index with
  | nil => simp [ofActions]
  | cons a rest ih =>
    rw [List.forall_mem_cons, ← @ih (index + 1)]
    simp only [ofActions, Except.bind_eq_ok, Except.pure_eq_ok]
    obtain ⟨script, redeemer⟩ := a
    cases script <;> cases redeemer <;> simp [ofAction]

namespace Draft

variable {d : Draft} {source : DatumSource} {inputs : List Utxo}

theorem exists_scriptFor_iff_available {h : ScriptHash} :
    (∃ script, d.scriptFor inputs h = some script) ↔
      (∃ script, d.scripts.get? h = some script) ∨ ∃ u ∈ d.referenced ++ inputs, ∃ script,
        u.output.scriptRef = some script ∧ script.hash = h := by
  rw [exists_scriptFor_iff, mem_referencedScripts_keys, Utxo.exists_scriptRef_iff]

theorem exists_requirements_iff : (∃ qs, d.requirements inputs = .ok qs) ↔
    ∀ redeemer, d.Acts inputs none redeemer → redeemer = none := by
  rw [requirements, Except.exists_bind_eq_ok]
  simp only [Except.pure_eq_ok, exists_eq', and_true, Except.exists_mapM_eq_ok]
  simp only [Requirement.exists_ofActions_iff]
  constructor
  · intro each redeemer acts
    obtain ⟨purpose, mem⟩ := acts_iff (a := ⟨none, redeemer⟩).mp acts
    exact each purpose (Purpose.mem_all purpose) _ mem rfl
  · intro each purpose _ a mem script
    exact each a.redeemer (script ▸ acts_iff.mpr ⟨purpose, mem⟩)

theorem exists_shows_iff {u : Utxo} {language : Language} :
    (∃ found, d.Shows source u language found) ↔ d.Readable source u language := by
  constructor
  · rintro ⟨found, shows⟩
    cases shows with
    | inline datum => exact .inline datum
    | hashed datum supplies =>
      cases supplies with
      | pinned pinned hash => exact .supplied datum pinned hash
      | attached pinned attached => exact .attached datum pinned attached
      | known pinned _ known => exact .known datum pinned known
    | unneeded datum => exact .unneeded datum
  · intro readable
    cases readable with
    | inline datum => exact ⟨_, .inline datum⟩
    | supplied datum pinned hash => exact ⟨_, .hashed datum (.pinned pinned hash)⟩
    | attached datum pinned attached => exact ⟨_, .hashed datum (.attached pinned attached)⟩
    | @known _ h _ datum pinned known =>
      cases attached : d.datums.get? h with
      | none => exact ⟨_, .hashed datum (.known pinned attached known)⟩
      | some data => exact ⟨_, .hashed datum (.attached pinned attached)⟩
    | unneeded datum => exact ⟨_, .unneeded datum⟩

def Resolvable (d : Draft) (source : DatumSource) (inputs : List Utxo) (q : Requirement) : Prop :=
  d.Meets inputs q ∧ ∀ u, spentAt inputs q.pointer = some u → ∀ language code,
    d.scriptFor inputs q.script = some (.plutus language code) → d.Readable source u language

theorem exists_resolveOne_iff (acc : Resolution × OrdMap DatumHash PlutusData) (q : Requirement) :
    (∃ acc', d.resolveOne source inputs (d.referencedScripts inputs) acc q = .ok acc') ↔
      d.Resolvable source inputs q := by
  simp only [resolveOne_eq_ok_iff]
  constructor
  · rintro ⟨acc', brings⟩
    refine ⟨brings.meets, fun u spent language code script => ?_⟩
    cases brings with
    | native found => cases script.symm.trans found
    | allows _ _ unspent => cases spent.symm.trans unspent
    | unlocks found _ there shows =>
      cases script.symm.trans found
      cases spent.symm.trans there
      exact exists_shows_iff.mp ⟨_, shows⟩
  · rintro ⟨⟨script, found, takes⟩, readable⟩
    cases script with
    | native n =>
      have given : q.redeemer = none := by simpa [Script.isPlutus, Script.language?] using takes
      exact ⟨_, .native found given⟩
    | plutus language code =>
      obtain ⟨data, given⟩ := Option.isSome_iff_exists.mp takes.symm
      cases spent : spentAt inputs q.pointer with
      | none => exact ⟨_, .allows found given spent⟩
      | some u =>
        obtain ⟨_, shows⟩ := exists_shows_iff.mpr (readable u spent language code found)
        exact ⟨_, .unlocks found given spent shows⟩

theorem exists_resolve_iff : (∃ r, d.resolve source inputs = .ok r) ↔
    (∀ redeemer, d.Acts inputs none redeemer → redeemer = none) ∧
      ∀ q ∈ d.required inputs, d.Resolvable source inputs q := by
  rw [← exists_requirements_iff, resolve, Except.exists_bind_eq_ok]
  simp only [Except.exists_bind_eq_ok, Except.pure_eq_ok, exists_eq', and_true,
    Except.exists_foldlM_eq_ok exists_resolveOne_iff]
  constructor
  · rintro ⟨qs, listed, each⟩
    exact ⟨⟨qs, listed⟩, requirements_ok listed ▸ each⟩
  · rintro ⟨⟨qs, listed⟩, each⟩
    exact ⟨qs, listed, requirements_ok listed ▸ each⟩

theorem forall_required_iff {P : ScriptHash → Option PlutusData → Prop} :
    (∀ q ∈ d.required inputs, P q.script q.redeemer) ↔
      ∀ h redeemer, d.Acts inputs (some h) redeemer → P h redeemer := by
  constructor
  · intro each h redeemer acts
    obtain ⟨purpose, mem⟩ := acts_iff (a := ⟨some h, redeemer⟩).mp acts
    obtain ⟨i, at_i⟩ := List.mem_iff_getElem?.mp mem
    exact each ⟨h, ⟨purpose, UInt32.ofNat i⟩, redeemer⟩
      (mem_required.mpr ⟨i, _, at_i, rfl, rfl, rfl⟩)
  · intro each q mem
    obtain ⟨i, a, at_i, script, _, redeemer⟩ := mem_required.mp mem
    rw [redeemer]
    exact each q.script a.redeemer (script ▸ acts_iff.mpr ⟨_, List.mem_of_getElem? at_i⟩)

theorem forall_spentAt_iff (few : inputs.length < UInt32.size) {P : Utxo → ScriptHash → Prop} :
    (∀ q ∈ d.required inputs, ∀ u, spentAt inputs q.pointer = some u → P u q.script) ↔
      ∀ u ∈ inputs, ∀ h, u.output.scriptHash? = some h → P u h := by
  have back {i : Nat} {u : Utxo} (at_i : inputs[i]? = some u) :
      (UInt32.ofNat i).toNat = i :=
    UInt32.toNat_ofNat_of_lt' (Nat.lt_trans (List.getElem?_eq_some_iff.mp at_i).1 few)
  have actions (i : Nat) : (d.actions inputs .spend)[i]? = inputs[i]?.map (fun u =>
      ⟨u.output.scriptHash?, (d.inputs.get? u.ref).bind Pinned.redeemer⟩) := List.getElem?_map
  constructor
  · intro each u mem h guarded
    obtain ⟨i, at_i⟩ := List.mem_iff_getElem?.mp mem
    have mem : (⟨h, ⟨.spend, UInt32.ofNat i⟩, (d.inputs.get? u.ref).bind Pinned.redeemer⟩ :
        Requirement) ∈ d.required inputs := by
      refine mem_required.mpr ⟨i, ⟨u.output.scriptHash?, _⟩, ?_, guarded, rfl, rfl⟩
      rw [actions, at_i, Option.map_some]
    refine each _ mem u ?_
    rw [spentAt, if_pos rfl, back at_i, at_i]
  · intro each q mem u spent
    obtain ⟨i, a, at_i, script, index, _⟩ := mem_required.mp mem
    rw [spentAt] at spent
    split at spent
    · rename_i spends
      rw [spends, actions, Option.map_eq_some_iff] at at_i
      obtain ⟨v, at_i, rfl⟩ := at_i
      rw [index, back at_i, at_i] at spent
      obtain rfl := Option.some.inj spent
      exact each v (List.mem_of_getElem? at_i) q.script script
    · cases spent

/-- Resolving succeeds just where no redeemer is astray, every script is at hand and has a redeemer
if it takes one, and every datum can be shown to the code that reads it. -/
theorem resolve_ok_iff_satisfiable (few : inputs.length < UInt32.size) :
    (∃ r, d.resolve source inputs = .ok r) ↔ d.Satisfiable source inputs := by
  have resolvable : (∀ q ∈ d.required inputs, d.Resolvable source inputs q) ↔
      (∀ h redeemer, d.Acts inputs (some h) redeemer →
        ∃ script, d.scriptFor inputs h = some script ∧ script.isPlutus = redeemer.isSome) ∧
      ∀ u ∈ inputs, ∀ h, u.output.scriptHash? = some h → ∀ language code,
        d.scriptFor inputs h = some (.plutus language code) → d.Readable source u language := by
    rw [← forall_required_iff, ← forall_spentAt_iff few]
    exact forall₂_and
  rw [exists_resolve_iff, resolvable]
  constructor
  · rintro ⟨unguarded, met, readable⟩
    refine ⟨unguarded, ?_, ?_, readable⟩
    · intro h redeemer acts
      obtain ⟨script, found, _⟩ := met h redeemer acts
      exact exists_scriptFor_iff_available.mp ⟨script, found⟩
    · intro h redeemer script acts found
      obtain ⟨_, same, takes⟩ := met h redeemer acts
      cases found.symm.trans same
      exact takes
  · rintro ⟨unguarded, available, redeemed, readable⟩
    refine ⟨unguarded, fun h redeemer acts => ?_, readable⟩
    obtain ⟨script, found⟩ := exists_scriptFor_iff_available.mpr (available h redeemer acts)
    exact ⟨script, found, redeemed h redeemer script acts found⟩

end Draft

namespace Sample

def reading : Script := .plutus .v2 [1]

def locked : Utxo where
  ref := ⟨hash 1, 0⟩
  output := {
    address := .shelley ⟨.testnet, .script reading.hash, .none⟩
    value := .ofLovelace 5000000
    datum := some (.hash (PlutusData.list []).hash) }

def releasing (datum : Option PlutusData) : Draft where
  scripts := (∅ : OrdMap ScriptHash Script).insert reading.hash reading
  inputs := (∅ : OrdMap OutRef Pinned).insert locked.ref ⟨locked, some (.list []), datum⟩

theorem releasing_scriptFor (datum : Option PlutusData) :
    (releasing datum).scriptFor [locked] reading.hash = some reading := by
  simp [Draft.scriptFor, releasing]

theorem releasing_acts {datum : Option PlutusData} {script : Option ScriptHash}
    {redeemer : Option PlutusData} (acts : (releasing datum).Acts [locked] script redeemer) :
    script = some reading.hash ∧ redeemer = some (.list []) := by
  cases acts with
  | spends mem =>
    obtain rfl := List.mem_singleton.mp mem
    exact ⟨rfl, by simp [releasing]⟩
  | mints mem | certifies mem | votes mem | proposes mem => cases mem
  | withdraws found => cases found

theorem releasing_satisfiable :
    (releasing (some (.list []))).Satisfiable (fun _ => none) [locked] where
  unguarded _ acts := nomatch (releasing_acts acts).1
  available _ _ acts := by
    obtain ⟨same, _⟩ := releasing_acts acts
    cases same
    exact .inl ⟨reading, OrdMap.get?_insert_self _ _ _⟩
  redeemed _ _ _ acts found := by
    obtain ⟨same, rfl⟩ := releasing_acts acts
    cases same
    cases found.symm.trans (releasing_scriptFor _)
    rfl
  readable u mem h guarded language code found := by
    obtain rfl := List.mem_singleton.mp mem
    exact .supplied rfl (by simp [releasing]) rfl

end Sample

theorem Draft.resolve_ok_iff_satisfiable_releasing : [Sample.locked].length < UInt32.size ∧
    (∃ r, (Sample.releasing (some (.list []))).resolve (fun _ => none) [Sample.locked] = .ok r) ∧
    ¬ ∃ r, (Sample.releasing none).resolve (fun _ => none) [Sample.locked] = .ok r := by
  have few : [Sample.locked].length < UInt32.size := by decide
  refine ⟨few, ?_, ?_⟩
  · exact (resolve_ok_iff_satisfiable few).mpr Sample.releasing_satisfiable
  · intro resolved
    have satisfiable := (resolve_ok_iff_satisfiable few).mp resolved
    have readable := satisfiable.readable _ List.mem_cons_self _ rfl _ _
      (Sample.releasing_scriptFor none)
    cases readable with
    | inline datum => cases datum
    | supplied _ supplied => simp [Sample.releasing] at supplied
    | attached _ _ attached => cases attached
    | known _ _ known => cases known

end ConwayTx
