import ConwayTx.Proofs.Intent
import ConwayTx.Proofs.Metadata.NoSchema
import ConwayTx.Proofs.Session
import ConwayTx.Proofs.Witness.Integrity

namespace ConwayTx

namespace Metadatum

inductive Scalar
  | int (n : Int128)
  | bytes (b : Bytes)
  | text (t : String)

def Scalar.length : Scalar → Nat
  | int _ => 0
  | bytes b => b.length
  | text t => t.utf8ByteSize

mutual

def scalars : Metadatum → List Scalar
  | int n => [.int n]
  | bytes b => [.bytes b]
  | text t => [.text t]
  | array items => scalarsOf items
  | map entries => scalarsOfEntries entries

def scalarsOf : List Metadatum → List Scalar
  | [] => []
  | m :: rest => scalars m ++ scalarsOf rest

def scalarsOfEntries : List (Metadatum × Metadatum) → List Scalar
  | [] => []
  | (k, v) :: rest => scalars k ++ scalars v ++ scalarsOfEntries rest

end

def Brief (m : Metadatum) : Prop := ∀ x ∈ m.scalars, x.length ≤ maxLength

def InRange (m : Metadatum) : Prop :=
  ∀ n, Scalar.int n ∈ m.scalars → -(UInt64.size : Int) ≤ n.toInt ∧ n.toInt < UInt64.size

section Writing

variable {n : Int128}

mutual

theorem isPlain_of_toItem : {m : Metadatum} → {item : Cbor.Item} → m.toItem = .ok item →
    Scalar.int n ∈ m.scalars → n.isPlain = true
  | int k, item, h, mem => by
    obtain rfl : n = k := by simpa [scalars] using mem
    rw [toItem] at h
    split at h
    · assumption
    · cases h
  | bytes b, item, h, mem => by simp [scalars] at mem
  | text t, item, h, mem => by simp [scalars] at mem
  | array items, item, h, mem => by
    obtain ⟨written, each, rfl⟩ := Except.map_eq_ok.mp h
    exact isPlain_of_itemsOf each mem
  | map entries, item, h, mem => by
    obtain ⟨written, each, rfl⟩ := Except.map_eq_ok.mp h
    exact isPlain_of_entriesOf each mem

theorem isPlain_of_itemsOf : {ms : List Metadatum} → {items : List Cbor.Item} →
    itemsOf ms = .ok items → Scalar.int n ∈ scalarsOf ms → n.isPlain = true
  | [], items, h, mem => nomatch mem
  | m :: rest, items, h, mem => by
    obtain ⟨first, written, h⟩ := Except.bind_eq_ok.mp h
    obtain ⟨others, later, _⟩ := Except.bind_eq_ok.mp h
    rcases List.mem_append.mp mem with here | there
    · exact isPlain_of_toItem written here
    · exact isPlain_of_itemsOf later there

theorem isPlain_of_entriesOf : {ps : List (Metadatum × Metadatum)} →
    {es : List (Cbor.Item × Cbor.Item)} → entriesOf ps = .ok es →
    Scalar.int n ∈ scalarsOfEntries ps → n.isPlain = true
  | [], es, h, mem => nomatch mem
  | (k, v) :: rest, es, h, mem => by
    obtain ⟨key, writtenKey, h⟩ := Except.bind_eq_ok.mp h
    obtain ⟨value, writtenValue, h⟩ := Except.bind_eq_ok.mp h
    obtain ⟨others, later, _⟩ := Except.bind_eq_ok.mp h
    rcases List.mem_append.mp mem with here | there
    · rcases List.mem_append.mp here with inKey | inValue
      · exact isPlain_of_toItem writtenKey inKey
      · exact isPlain_of_toItem writtenValue inValue
    · exact isPlain_of_entriesOf later there

end

theorem inRange_of_toItem {m : Metadatum} {item : Cbor.Item} (h : m.toItem = .ok item) :
    m.InRange :=
  fun _ mem => isPlain_iff.mp (isPlain_of_toItem h mem)

end Writing

section Reading

theorem ofString_brief {s : String} {m : Metadatum} (h : ofString s = .ok m) : m.Brief := by
  unfold ofString at h
  simp only at h
  split at h <;> split at h <;> cases h
  all_goals
    rename_i within
    intro x mem
    obtain rfl := List.mem_singleton.mp mem
    exact within

theorem ofName_brief {name : String} {m : Metadatum} (h : ofName name = .ok m) : m.Brief := by
  unfold ofName at h
  split at h
  · cases h
    intro x mem
    obtain rfl := List.mem_singleton.mp mem
    exact Nat.zero_le _
  · exact ofString_brief h

mutual

theorem ofJson_brief : {j : Json} → {m : Metadatum} → ofJson j = .ok m → m.Brief
  | .nat n, m, h | .neg n, m, h => by
    cases h
    intro x mem
    obtain rfl := List.mem_singleton.mp mem
    exact Nat.zero_le _
  | .str s, m, h => ofString_brief h
  | .arr items, m, h => by
    obtain ⟨read, each, rfl⟩ := Except.map_eq_ok.mp h
    exact ofItems_brief each
  | .obj members, m, h => by
    obtain ⟨read, each, rfl⟩ := Except.map_eq_ok.mp h
    exact ofMembers_brief each

theorem ofItems_brief : {js : List Json} → {ms : List Metadatum} → ofItems js = .ok ms →
    ∀ x ∈ scalarsOf ms, x.length ≤ maxLength
  | [], ms, h => by
    cases h
    exact fun x mem => nomatch mem
  | j :: rest, ms, h => by
    obtain ⟨first, read, h⟩ := Except.bind_eq_ok.mp h
    obtain ⟨others, later, h⟩ := Except.bind_eq_ok.mp h
    cases h
    exact List.forall_mem_append.mpr ⟨ofJson_brief read, ofItems_brief later⟩

theorem ofMembers_brief : {js : List (String × Json)} → {ps : List (Metadatum × Metadatum)} →
    ofMembers js = .ok ps → ∀ x ∈ scalarsOfEntries ps, x.length ≤ maxLength
  | [], ps, h => by
    cases h
    exact fun x mem => nomatch mem
  | (name, j) :: rest, ps, h => by
    obtain ⟨key, readKey, h⟩ := Except.bind_eq_ok.mp h
    obtain ⟨value, read, h⟩ := Except.bind_eq_ok.mp h
    obtain ⟨others, later, h⟩ := Except.bind_eq_ok.mp h
    cases h
    exact List.forall_mem_append.mpr
      ⟨List.forall_mem_append.mpr ⟨ofName_brief readKey, ofJson_brief read⟩,
        ofMembers_brief later⟩

end

theorem ofText_brief {text : String} {m : Metadatum} (h : ofText text = .ok m) : m.Brief := by
  unfold ofText at h
  split at h
  · exact ofJson_brief h
  · cases h

end Reading

end Metadatum

theorem Given.brief_of_text {s : String} {m : Metadatum}
    (h : (Given.text s).metadatum = .ok m) : m.Brief := by
  rw [metadatum, read] at h
  split at h
  · rename_i parsed
    cases h
    exact Metadatum.ofText_brief parsed
  · cases h

def Tx.note? (tx : Tx) (label : UInt64) : Option Metadatum := tx.metadata.bind (·.get? label)

theorem Metadata.inRange_of_encode {m : Metadata} {bytes : Bytes} (h : m.encode = .ok bytes)
    {label : UInt64} {x : Metadatum} (noted : m.get? label = some x) : x.InRange := by
  obtain ⟨_, made, _⟩ := Except.map_eq_ok.mp h
  obtain ⟨_, each, _⟩ := Except.map_eq_ok.mp made
  obtain ⟨_, written⟩ :=
    Except.exists_mapM_eq_ok.mp ⟨_, each⟩ (label, x) (OrdMap.get?_eq_some_iff.mp noted)
  obtain ⟨_, item, _⟩ := Except.map_eq_ok.mp written
  exact Metadatum.inRange_of_toItem item

theorem Draft.auxiliaryData_get? (d : Draft) (label : UInt64) :
    d.auxiliaryData.bind (·.get? label) = d.metadata.get? label := by
  rw [auxiliaryData]
  split
  · rename_i empty
    exact (OrdMap.isEmpty_iff.mp empty label).symm
  · rfl

namespace Balance

variable {s : Setup} {d : Draft} {pools : Pools} {plan : Plan} {state : State} {tx : Tx}

namespace Accepted

variable (a : Accepted s d pools plan state tx)
include a

theorem tx_note? (label : UInt64) : tx.note? label = d.metadata.get? label := by
  rw [Tx.note?, a.tx_metadata, d.auxiliaryData_get?]

theorem note_inRange {label : UInt64} {x : Metadatum} (noted : tx.note? label = some x) :
    x.InRange := by
  obtain ⟨bytes, encoded, _⟩ := checkSize_ok (finish_ok a.finished).size
  obtain ⟨m, there, found⟩ := Option.bind_eq_some_iff.mp noted
  have same : a.full.metadata = some m := by
    rw [a.full_eq]
    exact there
  obtain ⟨inner, written⟩ := Tx.metadata_encode same encoded
  exact Metadata.inRange_of_encode written found

end Accepted

/-- A transaction notes what was noted last under each label, and no integer in it is out of range.
Its strings keep to the limit if and only if those of the values do that were noted last; what was
noted as JSON always does. -/
theorem metadata_brief_iff {magic : Option UInt32} {is : List Intent}
    (h : Session.outcome s magic is = .ok tx) :
    (∀ label x, tx.note? label = some x ↔
      ∃ given, Intent.lastNote is label = some given ∧ given.metadatum = .ok x) ∧
    (∀ label x, tx.note? label = some x → x.InRange) ∧
    ((∀ label x, tx.note? label = some x → x.Brief) ↔
      ∀ label x, Intent.lastNote is label = some (.value x) → x.Brief) := by
  obtain ⟨w, made, balanced⟩ := Session.outcome_ok h
  obtain ⟨plan, state, _, ⟨a⟩⟩ := balance_ok balanced
  have noted : ∀ label x, tx.note? label = some x ↔
      ∃ given, Intent.lastNote is label = some given ∧ given.metadatum = .ok x := by
    intro label x
    rw [a.tx_note?]
    exact Intent.performAll_noted made
  refine ⟨noted, fun label x => a.note_inRange, ?_⟩
  constructor
  · intro brief label x last
    exact brief label x ((noted label x).mpr ⟨.value x, last, rfl⟩)
  · intro brief label x here
    obtain ⟨given, last, read⟩ := (noted label x).mp here
    cases given with
    | value y =>
      obtain rfl := Except.ok.inj read
      exact brief label y last
    | text s => exact Given.brief_of_text read

end Balance

namespace Sample

def rambling : Metadatum := .text (String.ofList (List.replicate 65 'a'))

def noting : List Intent :=
  [.changeAddress (.value (keyAddress 3)),
    .utxos [utxo 0 (keyAddress 1) (.ofLovelace 10000000)],
    .metadata 674 (.text "\"a\""),
    .metadata 674 (.value (.array [.int (.ofInt64 1), rambling]))]

theorem noting_passes : (Session.outcome setup none noting).satisfies (fun tx =>
    tx.metadata.isSome) = true := by
  decide +kernel

end Sample

theorem Balance.metadata_brief_noting :
    ∃ tx x, Session.outcome Sample.setup none Sample.noting = .ok tx ∧ tx.note? 674 = some x ∧
      x.InRange ∧ ¬ x.Brief := by
  obtain ⟨tx, built, _⟩ := Except.satisfies_iff.mp Sample.noting_passes
  obtain ⟨noted, inRange, _⟩ := metadata_brief_iff built
  have here := (noted 674 _).mpr ⟨_, rfl, rfl⟩
  refine ⟨tx, _, built, here, inRange _ _ here, fun brief => ?_⟩
  have short := brief _ (List.mem_append_right _ (List.mem_append_left _ List.mem_cons_self))
  exact absurd short (by decide)

end ConwayTx
