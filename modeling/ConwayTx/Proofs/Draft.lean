import ConwayTx.Intent
import ConwayTx.Proofs.Except
import ConwayTx.Proofs.OrdMap

namespace ConwayTx

inductive Work.Reachable : Work → Prop
  | start (g : Genesis) : Reachable { genesis := g }
  | intent {w w' : Work} (p : Params) (i : Intent) :
    Reachable w → i.perform p w = .ok w' → Reachable w'

def Intent.performAll (p : Params) (w : Work) (is : List Intent) : Except BuildError Work :=
  is.foldlM (fun w i => i.perform p w) w

theorem Work.Reachable.performAll {p : Params} {w w' : Work} {is : List Intent}
    (reached : w.Reachable) (h : Intent.performAll p w is = .ok w') : w'.Reachable := by
  induction is generalizing w with
  | nil =>
    obtain rfl := Except.pure_eq_ok.mp h
    exact reached
  | cons i rest ih =>
    rw [Intent.performAll, List.foldlM_cons] at h
    obtain ⟨next, step, h⟩ := Except.bind_eq_ok.mp h
    exact ih (.intent p i reached step) h

namespace Draft

def Reachable (d : Draft) : Prop := ∃ w : Work, w.Reachable ∧ w.draft = d

def PinsByRef (d : Draft) : Prop :=
  ∀ r pin, d.inputs.get? r = some pin → pin.utxo.ref = r

def ScriptsByHash (d : Draft) : Prop :=
  ∀ h script, d.scripts.get? h = some script → script.hash = h

theorem PinsByRef.pinned_refs {d : Draft} (pins : d.PinsByRef) :
    d.pinned.map Utxo.ref = d.inputs.keys := by
  rw [pinned, List.map_map]
  exact OrdMap.map_values_eq_keys pins

theorem addInput_inputs (d : Draft) (pin : Pinned) :
    (d.addInput pin).inputs = d.inputs.insert pin.utxo.ref pin := by
  cases datum : pin.datum <;> simp [addInput, addDatum, datum]

theorem addInput_scripts (d : Draft) (pin : Pinned) : (d.addInput pin).scripts = d.scripts := by
  cases datum : pin.datum <;> simp [addInput, addDatum, datum]

inductive Filing (d : Draft) : Draft → Prop
  | input (pin : Pinned) : Filing d (d.addInput pin)
  | reference (u : Utxo) : Filing d (d.addReferenceInput u)
  | script (s : Script) : Filing d (d.addScript s)
  | datum (data : PlutusData) : Filing d (d.addDatum data)
  | other {d' : Draft} : d'.inputs = d.inputs → d'.referenceInputs = d.referenceInputs →
    d'.scripts = d.scripts → d'.datums = d.datums → Filing d d'

end Draft

@[simp] theorem Work.noteScriptRef_draft (w : Work) (u : Utxo) :
    (w.noteScriptRef u).draft = w.draft := by
  cases script : u.output.scriptRef <;> simp [noteScriptRef, script]

structure Draft.Keeps (d d' : Draft) : Prop where
  inputs : d'.inputs = d.inputs
  referenceInputs : d'.referenceInputs = d.referenceInputs
  scripts : d'.scripts = d.scripts
  datums : d'.datums = d.datums
  outputs : d'.outputs = d.outputs
  metadata : d'.metadata = d.metadata

theorem Draft.Keeps.addMint {d d' : Draft} {policy : PolicyId} {name : AssetName} {amount : Int64}
    {redeemer : Option PlutusData} (h : d.addMint policy name amount redeemer = .ok d') :
    d.Keeps d' := by
  unfold Draft.addMint at h
  split at h
  · cases h
  · split at h
    · cases h
    · simp only at h
      split at h <;> cases h <;> exact ⟨rfl, rfl, rfl, rfl, rfl, rfl⟩

namespace Intent

def pinned? : Intent → Option Pinned
  | input pin => some pin
  | _ => none

def referenced? : Intent → Option Utxo
  | referenceInput u => some u
  | _ => none

def payment? : Intent → Option Value
  | send _ v | lock _ v _ => some v
  | output o => some o.value
  | _ => none

def note? (label : UInt64) : Intent → Option (Given Metadatum)
  | metadata l m => if l = label then some m else none
  | _ => none

def datum? : Intent → Option PlutusData
  | datum data => some data
  | input pin => pin.datum
  | _ => none

structure Silent (i : Intent) : Prop where
  pinned : i.pinned? = none
  referenced : i.referenced? = none
  payment : i.payment? = none
  note : ∀ label, i.note? label = none
  datum : i.datum? = none

/-- What carrying an intent out does to the draft. Addresses and metadata have been read by then,
and those that ask for nothing of this kind may change whatever else there is. -/
inductive Does (d : Draft) : Intent → Draft → Prop
  | input (pin : Pinned) : Does d (.input pin) (d.addInput pin)
  | reference (u : Utxo) : Does d (.referenceInput u) (d.addReferenceInput u)
  | script (s : Script) : Does d (.script s) (d.addScript s)
  | datum (data : PlutusData) : Does d (.datum data) (d.addDatum data)
  | send {payee : Given Address} {a : Address} {v : Value} : payee.address = .ok a →
    Does d (.send payee v) { d with outputs := d.outputs ++ [{ address := a, value := v }] }
  | lock {payee : Given Address} {a : Address} {v : Value} {datum : Option Datum} :
    payee.address = .ok a → a.isScript = true → Does d (.lock payee v datum)
      { d with outputs := d.outputs ++ [{ address := a, value := v, datum := datum }] }
  | output (o : TxOut) : Does d (.output o) { d with outputs := d.outputs ++ [o] }
  | note {label : UInt64} {given : Given Metadatum} {m : Metadatum} : given.metadatum = .ok m →
    Does d (.metadata label given) { d with metadata := d.metadata.insert label m }
  | other {i : Intent} {d' : Draft} : i.Silent → d.Keeps d' → Does d i d'

theorem perform_does {p : Params} {w w' : Work} {i : Intent} (h : i.perform p w = .ok w') :
    i.Does w.draft w'.draft := by
  cases i <;>
    simp only [perform, Except.bind_eq_ok, Except.map_eq_ok, Except.pure_eq_ok,
      Except.ok.injEq] at h
  case input pin =>
    have h : (w.noteScriptRef pin.utxo).onDraft (·.addInput pin) = w' := by
      split at h
      · obtain ⟨_, _, h⟩ := Except.bind_eq_ok.mp h
        exact Except.pure_eq_ok.mp h
      · exact Except.pure_eq_ok.mp h
    subst h
    rw [Work.onDraft, Work.noteScriptRef_draft]
    exact .input pin
  case referenceInput u =>
    subst h
    rw [Work.onDraft, Work.noteScriptRef_draft]
    exact .reference u
  case script s =>
    subst h
    exact .script s
  case datum data =>
    subst h
    exact .datum data
  case send =>
    obtain ⟨_, known, rfl⟩ := h
    exact .send known
  case lock =>
    obtain ⟨_, known, h⟩ := h
    split at h <;> cases h
    exact .lock known ‹_›
  case output o =>
    subst h
    exact .output o
  case metadata =>
    obtain ⟨_, read, rfl⟩ := h
    exact .note read
  case mint =>
    obtain ⟨_, _, _, _, d, added, rfl⟩ := h
    exact .other ⟨rfl, rfl, rfl, fun _ => rfl, rfl⟩ (.addMint added)
  case mintAsset =>
    obtain ⟨_, _, d, added, rfl⟩ := h
    exact .other ⟨rfl, rfl, rfl, fun _ => rfl, rfl⟩ (.addMint added)
  case delegateStake | delegateVote =>
    obtain ⟨_, _, _, _, rfl⟩ := h
    exact .other ⟨rfl, rfl, rfl, fun _ => rfl, rfl⟩ ⟨rfl, rfl, rfl, rfl, rfl, rfl⟩
  case changeAddress | collateralChangeAddress | signer | register | deregister |
      registerDRep | updateDRep | deregisterDRep | withdraw =>
    obtain ⟨_, _, rfl⟩ := h
    exact .other ⟨rfl, rfl, rfl, fun _ => rfl, rfl⟩ ⟨rfl, rfl, rfl, rfl, rfl, rfl⟩
  all_goals
    subst h
    exact .other ⟨rfl, rfl, rfl, fun _ => rfl, rfl⟩ ⟨rfl, rfl, rfl, rfl, rfl, rfl⟩

theorem Does.filing {d d' : Draft} {i : Intent} (h : i.Does d d') : d.Filing d' := by
  cases h with
  | input pin => exact .input pin
  | reference u => exact .reference u
  | script s => exact .script s
  | datum data => exact .datum data
  | send | lock | output | note => exact .other rfl rfl rfl rfl
  | other _ keeps => exact .other keeps.inputs keeps.referenceInputs keeps.scripts keeps.datums

theorem perform_filing {p : Params} {w w' : Work} {i : Intent} (h : i.perform p w = .ok w') :
    w.draft.Filing w'.draft :=
  (perform_does h).filing

theorem performAll_append_singleton {p : Params} {w w' : Work} {is : List Intent} {i : Intent} :
    performAll p w (is ++ [i]) = .ok w' ↔
      ∃ before, performAll p w is = .ok before ∧ i.perform p before = .ok w' := by
  simp [performAll, List.foldlM_append, Except.bind_eq_ok]

end Intent

namespace Draft

theorem Reachable.of_filing {P : Draft → Prop} (empty : P {})
    (step : ∀ {d d' : Draft}, P d → d.Filing d' → P d') {d : Draft} (h : d.Reachable) : P d := by
  obtain ⟨w, reached, rfl⟩ := h
  induction reached with
  | start g => exact empty
  | intent p i _ performed ih => exact step ih (Intent.perform_filing performed)

theorem Reachable.pinsByRef {d : Draft} (h : d.Reachable) : d.PinsByRef := by
  refine of_filing (fun r pin found => nomatch found) ?_ h
  intro d d' pins filing
  cases filing with
  | input pin =>
    rw [PinsByRef, addInput_inputs]
    exact OrdMap.forall_get?_insert pins rfl
  | reference | script | datum => exact pins
  | other inputs =>
    rw [PinsByRef, inputs]
    exact pins

theorem Reachable.scriptsByHash {d : Draft} (h : d.Reachable) : d.ScriptsByHash := by
  refine of_filing (fun h script found => nomatch found) ?_ h
  intro d d' scripts filing
  cases filing with
  | script s => exact OrdMap.forall_get?_insert scripts rfl
  | input pin =>
    rw [ScriptsByHash, addInput_scripts]
    exact scripts
  | reference | datum => exact scripts
  | other _ _ same =>
    rw [ScriptsByHash, same]
    exact scripts

end Draft

end ConwayTx
