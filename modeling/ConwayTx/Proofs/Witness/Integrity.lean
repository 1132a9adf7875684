import ConwayTx.Proofs.Balance.FeeCoverage
import ConwayTx.Proofs.Witness.Pairing

namespace ConwayTx

open Cbor (Item)

theorem Redeemer.encode_mapItem_nil : (mapItem []).encode = [0xa0] := by
  rw [mapItem, Ranked.sortOn, List.mergeSort_nil]
  rfl

namespace Witnesses

def encodedAt (key : UInt64) : Item × Item → Option Bytes
  | (.nat n, value) => if n = key then some value.encode else none
  | _ => none

def field (w : Witnesses) (key : UInt64) : Option Bytes := w.entries.findSome? (encodedAt key)

theorem findSome?_filled (key n : UInt64) (isEmpty : Bool) (item : Item) :
    (TxBody.filled n isEmpty item).findSome? (encodedAt key) =
      if n = key ∧ isEmpty = false then some item.encode else none := by
  cases isEmpty with
  | true => simp [TxBody.filled]
  | false => simp [TxBody.filled, encodedAt]

theorem field_redeemers (w : Witnesses) : w.field 5 =
    if w.redeemers.isEmpty = false then some (Redeemer.mapItem w.redeemers).encode else none := by
  simp [field, entries, List.findSome?_append, findSome?_filled]

theorem field_datums (w : Witnesses) : w.field 4 =
    if w.datums.isEmpty = false then some (datumsItem w.datums).encode else none := by
  simp [field, entries, List.findSome?_append, findSome?_filled]

end Witnesses

namespace Tx

def Runs (tx : Tx) (d : Draft) (spent : List Utxo) (p : RedeemerPointer) (script : Script) :
    Prop :=
  ∃ (i : Nat) (hash : ScriptHash), (tx.guards spent p.purpose)[i]? = some (some hash) ∧
    p.index = UInt32.ofNat i ∧ d.scriptFor spent hash = some script

/-- What the digest of the scripts commits to: redeemers and datums as they are encoded, and the
views of languages. Where nothing runs, empty maps stand for redeemers and views. -/
def committed (tx : Tx) (views : Bytes) : Bytes :=
  (tx.witnesses.field 5).getD [0xa0] ++ (tx.witnesses.field 4).getD [] ++
    if tx.witnesses.redeemers.isEmpty then [0xa0] else views

theorem integrityPreimage_eq (tx : Tx) (views : Bytes) :
    integrityPreimage tx.witnesses.redeemers tx.witnesses.datums views = tx.committed views := by
  rw [committed, Witnesses.field_redeemers, Witnesses.field_datums, integrityPreimage]
  cases tx.witnesses.redeemers with
  | nil =>
    rw [Redeemer.encode_mapItem_nil]
    cases tx.witnesses.datums <;> rfl
  | cons r rest => cases tx.witnesses.datums <;> rfl

def front (tx : Tx) : Bytes :=
  Cbor.head 4 4 ++ tx.body.encode ++ tx.witnesses.toItem.encode ++ (Item.bool tx.isValid).encode

theorem encode_eq_front {tx : Tx} {m : Metadata} (there : tx.metadata = some m) {bytes : Bytes}
    (encoded : m.encode = .ok bytes) : tx.encode = .ok (tx.front ++ bytes) := by
  obtain ⟨item, made, rfl⟩ := Except.map_eq_ok.mp encoded
  have metadata : tx.metadataItem = .ok item := by rw [metadataItem, there]; exact made
  rw [encode, toItem, metadata]
  simp [Except.map, Item.encode, Item.encodeAll, front, TxBody.encode]

theorem metadata_encode {tx : Tx} {m : Metadata} (there : tx.metadata = some m) {bytes : Bytes}
    (encoded : tx.encode = .ok bytes) : ∃ inner, m.encode = .ok inner := by
  obtain ⟨_, made, _⟩ := Except.map_eq_ok.mp encoded
  obtain ⟨item, metadata, _⟩ := Except.map_eq_ok.mp made
  rw [metadataItem, there] at metadata
  exact ⟨item.encode, Except.map_eq_ok.mpr ⟨item, metadata, rfl⟩⟩

end Tx

namespace Resolution

theorem scriptDataHash_ok {r : Resolution} {m : CostModels} {hash : Option (Hash 32)}
    (h : r.scriptDataHash m = .ok hash) :
    (hash = none ∧ r.redeemers = [] ∧ r.datums = []) ∨
      ¬ (r.redeemers = [] ∧ r.datums = []) ∧ ∃ views, m.languageViews r.languages = .ok views ∧
        hash = some (blake2b256 (integrityPreimage r.redeemers r.datums views)) := by
  unfold scriptDataHash at h
  split at h
  · rename_i nothing
    cases h
    rw [Bool.and_eq_true, List.isEmpty_iff, List.isEmpty_iff] at nothing
    exact .inl ⟨rfl, nothing⟩
  · rename_i something
    rw [Bool.and_eq_true, List.isEmpty_iff, List.isEmpty_iff] at something
    split at h
    · rename_i views found
      cases h
      exact .inr ⟨something, views, found, rfl⟩
    · cases h

end Resolution

namespace Balance

variable {s : Setup} {d : Draft} {pools : Pools} {plan : Plan} {state : State} {tx : Tx}

namespace Accepted

variable (a : Accepted s d pools plan state tx)
include a

theorem tx_scriptDataHash :
    a.parts.resolution.scriptDataHash s.params.costModels = .ok tx.body.scriptDataHash := by
  obtain ⟨hash, hashed, full⟩ := assemble_ok a.assembled
  rw [(finish_ok a.finished).body_eq, full]
  exact hashed

theorem tx_metadata : tx.metadata = d.auxiliaryData := by
  obtain ⟨hash, _, full⟩ := assemble_ok a.assembled
  rw [(finish_ok a.finished).tx_eq, full]

theorem tx_auxiliaryDataHash : tx.body.auxiliaryDataHash = tx.metadata.map Metadata.hash := by
  rw [a.tx_metadata]
  exact a.of_body (fun _ => rfl)

theorem runs_iff {r : Resolution} (resolves : d.Resolves a.inputs r) {p : RedeemerPointer}
    {script : Script} : tx.Runs d a.inputs p script ↔
      ∃ q ∈ resolves.requirements, q.pointer = p ∧
        d.scriptFor a.inputs q.script = some script := by
  constructor
  · rintro ⟨i, hash, guard, index, found⟩
    rw [← a.actions_script, List.getElem?_map, Option.map_eq_some_iff] at guard
    obtain ⟨action, at_i, guarded⟩ := guard
    refine ⟨⟨hash, p, action.redeemer⟩, ?_, rfl, found⟩
    exact resolves.requirement_iff.mpr ⟨i, action, at_i, guarded, index, rfl⟩
  · rintro ⟨q, mem, rfl, found⟩
    obtain ⟨i, action, at_i, guarded, index, _⟩ := resolves.requirement_iff.mp mem
    refine ⟨i, q.script, ?_, index, found⟩
    rw [← a.actions_script, List.getElem?_map, at_i, Option.map_some, guarded]

theorem mem_languages {l : Language} : l ∈ a.parts.resolution.languages.keys ↔
    ∃ x ∈ tx.witnesses.redeemers, ∃ code, tx.Runs d a.inputs x.pointer (.plutus l code) := by
  obtain ⟨r, ⟨resolves⟩, same⟩ := a.resolves
  have languages : a.parts.resolution.languages = r.languages :=
    (congrArg Resolution.languages same :)
  rw [languages, resolves.languages]
  constructor
  · rintro ⟨q, mem, run⟩
    obtain ⟨code, found⟩ := Draft.languageFor_eq_some_iff.mp run
    obtain ⟨data, redeemer⟩ := Option.isSome_iff_exists.mp
      ((resolves.met q mem).isSome_redeemer_iff.mpr ⟨l, code, found⟩)
    obtain ⟨x, there, pointer, _⟩ :=
      (a.mem_redeemers resolves same q.pointer data).mpr ⟨q, mem, rfl, redeemer⟩
    exact ⟨x, there, code, (a.runs_iff resolves).mpr ⟨q, mem, pointer.symm, found⟩⟩
  · rintro ⟨x, _, code, runs⟩
    obtain ⟨q, mem, _, found⟩ := (a.runs_iff resolves).mp runs
    exact ⟨q, mem, Draft.languageFor_eq_some_iff.mpr ⟨code, found⟩⟩

end Accepted

/-- The digest of the scripts is there if there is a redeemer or a datum, and is taken of what the
witness set says of them in the end, with the views of the languages that run and of no other; the
digest of the metadata is there if the metadata is, and is taken of its bytes. -/
theorem digests_commit (h : balance s d pools = .ok tx) :
    (tx.body.scriptDataHash = none ↔
      tx.witnesses.redeemers = [] ∧ tx.witnesses.datums = []) ∧
    (∃ spent : List Utxo, tx.body.inputs = OrdSet.ofList (spent.map Utxo.ref) ∧
      (d.PinsByRef → s.select.Lawful → spent = pools.spent d tx) ∧
      ∀ hash, tx.body.scriptDataHash = some hash → ∃ languages views,
        (∀ l, l ∈ languages.keys ↔ ∃ r ∈ tx.witnesses.redeemers, ∃ code,
          tx.Runs d spent r.pointer (.plutus l code)) ∧
        s.params.costModels.languageViews languages = .ok views ∧
        hash = blake2b256 (tx.committed views)) ∧
    (tx.body.auxiliaryDataHash = none ↔ tx.metadata = none) ∧
    ∀ m, tx.metadata = some m → ∃ bytes, m.encode = .ok bytes ∧
      tx.encode = .ok (tx.front ++ bytes) ∧
      tx.body.auxiliaryDataHash = some (blake2b256 bytes) := by
  obtain ⟨plan, state, made, ⟨a⟩⟩ := balance_ok h
  have digest := Resolution.scriptDataHash_ok a.tx_scriptDataHash
  rw [← a.tx_redeemers, ← a.tx_datums] at digest
  refine ⟨?_, ⟨a.inputs, a.tx_inputs, a.inputs_eq_spent (plan_ok made), ?_⟩, ?_, ?_⟩
  · rcases digest with ⟨absent, nothing⟩ | ⟨something, views, _, taken⟩
    · exact ⟨fun _ => nothing, fun _ => absent⟩
    · rw [taken]
      exact ⟨nofun, fun nothing => absurd nothing something⟩
  · intro hash present
    rcases digest with ⟨absent, _⟩ | ⟨_, views, viewed, taken⟩
    · rw [absent] at present
      cases present
    · refine ⟨a.parts.resolution.languages, views, fun _ => a.mem_languages, viewed, ?_⟩
      rw [← tx.integrityPreimage_eq]
      exact Option.some.inj (present.symm.trans taken)
  · rw [a.tx_auxiliaryDataHash, Option.map_eq_none_iff]
  · intro m there
    obtain ⟨whole, encoded, _⟩ := checkSize_ok (finish_ok a.finished).size
    have same : a.full.metadata = some m := by
      rw [a.full_eq]
      exact there
    obtain ⟨bytes, inner⟩ := Tx.metadata_encode same encoded
    refine ⟨bytes, inner, Tx.encode_eq_front there inner, ?_⟩
    rw [a.tx_auxiliaryDataHash, there, Option.map_some, Metadata.hash, inner]

end Balance

namespace Sample

def attesting : List Intent :=
  [.changeAddress (.value (keyAddress 3)),
    .collateralChangeAddress (.value (keyAddress 3)),
    .utxos [utxo 0 (keyAddress 1) (.ofLovelace 10000000)],
    .collateralUtxos [utxo 1 (keyAddress 1) (.ofLovelace 5000000)],
    .script compiled,
    .deregister (.value ⟨.testnet, .script compiled.hash⟩) (some (.list [])),
    .datum (.list []),
    .metadata 7 (.value (.bytes [1]))]

theorem attesting_passes : (run attesting).satisfies (fun (_, tx) =>
    tx.witnesses.field 5 == some [0xa1, 0x82, 2, 0, 0x82, 0x80, 0x82, 0x1a, 0, 0xd5, 0x9f, 0x80,
      0x1b, 0, 0, 0, 2, 0x54, 0x0b, 0xe4, 0] &&
    tx.witnesses.field 4 == some [0x81, 0x80] &&
    !tx.witnesses.redeemers.isEmpty &&
    tx.metadata.any (fun m => m.encode.satisfies (fun bytes => bytes == [0xa1, 7, 0x41, 1]))) =
    true := by
  decide +kernel

end Sample

theorem Balance.digests_commit_attesting : ∃ w tx hash languages views,
    Sample.run Sample.attesting = .ok (w, tx) ∧
    tx.body.scriptDataHash = some hash ∧
    hash = blake2b256 ([0xa1, 0x82, 2, 0, 0x82, 0x80, 0x82, 0x1a, 0, 0xd5, 0x9f, 0x80,
      0x1b, 0, 0, 0, 2, 0x54, 0x0b, 0xe4, 0] ++ [0x81, 0x80] ++ views) ∧
    Sample.setup.params.costModels.languageViews languages = .ok views ∧
    (∀ l, l ∈ languages.keys ↔ ∃ r ∈ tx.witnesses.redeemers, ∃ code,
      tx.Runs w.draft (w.pools.spent w.draft tx) r.pointer (.plutus l code)) ∧
    tx.encode = .ok (tx.front ++ [0xa1, 7, 0x41, 1]) ∧
    tx.body.auxiliaryDataHash = some (blake2b256 [0xa1, 7, 0x41, 1]) := by
  obtain ⟨⟨w, tx⟩, ran, passes⟩ := Except.satisfies_iff.mp Sample.attesting_passes
  simp only [Bool.and_eq_true, beq_iff_eq, Bool.not_eq_true'] at passes
  obtain ⟨⟨⟨redeemers, datums⟩, runs⟩, noted⟩ := passes
  obtain ⟨reachable, balanced⟩ := Sample.run_ok ran
  obtain ⟨absent, ⟨spent, _, named, taken⟩, _, auxiliary⟩ := digests_commit balanced
  obtain rfl := named reachable.pinsByRef Selection.largestFirst_lawful
  obtain ⟨hash, present⟩ : ∃ hash, tx.body.scriptDataHash = some hash := by
    rw [← Option.ne_none_iff_exists', ne_eq, absent]
    rintro ⟨nothing, _⟩
    rw [nothing] at runs
    cases runs
  obtain ⟨languages, views, spoken, viewed, digest⟩ := taken hash present
  rw [Tx.committed, redeemers, datums, runs] at digest
  obtain ⟨m, there, noted⟩ := (Option.any_eq_true _ _).mp noted
  obtain ⟨bytes, inner, whole, digested⟩ := auxiliary m there
  obtain ⟨_, same, noted⟩ := Except.satisfies_iff.mp noted
  obtain rfl : bytes = [0xa1, 7, 0x41, 1] := by
    cases inner.symm.trans same
    exact beq_iff_eq.mp noted
  exact ⟨w, tx, hash, languages, views, ran, present, digest, viewed, spoken, whole, digested⟩

end ConwayTx
