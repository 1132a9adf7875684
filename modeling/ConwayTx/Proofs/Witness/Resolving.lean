import ConwayTx.Proofs.Except
import ConwayTx.Proofs.OrdMap
import ConwayTx.Witness.Resolution
/-!
What resolving finds. Every guarded action requires its script under its own pointer, and takes a
redeemer exactly where the script is compiled code.
-/

namespace ConwayTx

open Ranked (Precedes)

theorem Purpose.mem_all (purpose : Purpose) : purpose ∈ all := by
  cases purpose <;> decide

namespace Requirement

def listed (purpose : Purpose) (index : Nat) (as : List Action) : List Requirement :=
  (as.zipIdx index).filterMap (fun (a, i) =>
    a.script.map (fun script => ⟨script, ⟨purpose, UInt32.ofNat i⟩, a.redeemer⟩))

theorem ofActions_ok {purpose : Purpose} {index : Nat} {as : List Action} {qs : List Requirement}
    (h : ofActions purpose index as = .ok qs) : qs = listed purpose index as := by
  induction as generalizing index qs with
  | nil =>
    cases h
    rfl
  | cons a rest ih =>
    obtain ⟨first, here, h⟩ := Except.bind_eq_ok.mp h
    obtain ⟨others, there, h⟩ := Except.bind_eq_ok.mp h
    obtain rfl := Except.pure_eq_ok.mp h
    obtain rfl := ih there
    obtain ⟨script, redeemer⟩ := a
    cases script with
    | some script =>
      cases here
      rfl
    | none =>
      cases redeemer with
      | some data => cases here
      | none =>
        cases here
        rfl

theorem mem_listed {purpose : Purpose} {as : List Action} {q : Requirement} :
    q ∈ listed purpose 0 as ↔ ∃ i a, as[i]? = some a ∧ a.script = some q.script ∧
      q.pointer = ⟨purpose, UInt32.ofNat i⟩ ∧ q.redeemer = a.redeemer := by
  simp only [listed, List.mem_filterMap, Prod.exists, List.mem_zipIdx_iff_getElem?,
    Option.map_eq_some_iff]
  constructor
  · rintro ⟨a, i, at_i, script, guarded, rfl⟩
    exact ⟨i, a, at_i, guarded, rfl, rfl⟩
  · rintro ⟨i, a, at_i, guarded, pointer, redeemer⟩
    refine ⟨a, i, at_i, q.script, guarded, ?_⟩
    rw [← pointer, ← redeemer]

theorem listed_strict {purpose : Purpose} {as : List Action} (few : as.length < UInt32.size) :
    (listed purpose 0 as).Pairwise (fun p q => Precedes p.pointer q.pointer) := by
  rw [listed, List.pairwise_filterMap]
  have order : as.zipIdx.Pairwise (fun x y => x.2 < y.2) := by
    rw [← List.pairwise_map (f := Prod.snd), List.zipIdx_map_snd]
    exact List.pairwise_lt_range'
  refine order.imp_of_mem ?_
  rintro ⟨a, i⟩ ⟨b, j⟩ _ mem before p hp q hq
  obtain ⟨_, _, rfl⟩ := Option.map_eq_some_iff.mp hp
  obtain ⟨_, _, rfl⟩ := Option.map_eq_some_iff.mp hq
  -- The later position fits a word, and so does the earlier one: neither wraps around.
  have bound : j < as.length := List.snd_lt_of_mem_zipIdx mem
  have hi : (UInt32.ofNat i).toNat = i := UInt32.toNat_ofNat_of_lt' (by omega)
  have hj : (UInt32.ofNat j).toNat = j := UInt32.toNat_ofNat_of_lt' (by omega)
  simpa [Precedes, Ranked.rank, List.cons_lt_cons_iff, hi, hj] using before

theorem listed_cons (purpose : Purpose) (index : Nat) (a : Action) (as : List Action) :
    listed purpose index (a :: as) =
      (a.script.map (fun script => (⟨script, ⟨purpose, UInt32.ofNat index⟩, a.redeemer⟩ :
        Requirement))).toList ++ listed purpose (index + 1) as := by
  cases script : a.script <;> simp [listed, script]

theorem listed_script (purpose : Purpose) (index : Nat) (as : List Action) :
    (listed purpose index as).map Requirement.script = (as.map Action.script).filterMap id := by
  induction as generalizing index with
  | nil => rfl
  | cons a rest ih =>
    rw [listed_cons, List.map_append, ih, List.map_cons, List.filterMap_cons]
    cases a.script <;> rfl

end Requirement

def Resolution.running (r : Resolution) (language : Language) (pointer : RedeemerPointer)
    (data : PlutusData) : Resolution :=
  { r with
    languages := r.languages.add language
    redeemers := r.redeemers ++ [⟨pointer, data, .zero⟩] }

namespace Draft

variable {d : Draft} {source : DatumSource} {inputs : List Utxo}

def required (d : Draft) (inputs : List Utxo) : List Requirement :=
  Purpose.all.flatMap (fun purpose => Requirement.listed purpose 0 (d.actions inputs purpose))

theorem requirements_ok {qs : List Requirement} (h : d.requirements inputs = .ok qs) :
    qs = d.required inputs := by
  obtain ⟨groups, each, h⟩ := Except.bind_eq_ok.mp h
  obtain rfl := Except.pure_eq_ok.mp h
  rw [required, List.flatMap_def, Except.eq_map_of_mapM_eq_ok Requirement.ofActions_ok each]

theorem mem_required {q : Requirement} : q ∈ d.required inputs ↔
    ∃ i a, (d.actions inputs q.pointer.purpose)[i]? = some a ∧ a.script = some q.script ∧
      q.pointer.index = UInt32.ofNat i ∧ q.redeemer = a.redeemer := by
  rw [required, List.mem_flatMap]
  constructor
  · rintro ⟨purpose, _, mem⟩
    obtain ⟨i, a, at_i, script, pointer, redeemer⟩ := Requirement.mem_listed.mp mem
    rw [pointer]
    exact ⟨i, a, at_i, script, rfl, redeemer⟩
  · rintro ⟨i, a, at_i, script, index, redeemer⟩
    refine ⟨q.pointer.purpose, Purpose.mem_all _, ?_⟩
    exact Requirement.mem_listed.mpr ⟨i, a, at_i, script, by rw [← index], redeemer⟩

/-- The script that stands for a hash: an attached one before one that an input brings along. -/
def scriptFor (d : Draft) (inputs : List Utxo) (h : ScriptHash) : Option Script :=
  (d.scripts.get? h).or ((d.referencedScripts inputs).get? h)

theorem mem_referencedScripts_keys {h : ScriptHash} : h ∈ (d.referencedScripts inputs).keys ↔
    h ∈ ((d.referenced ++ inputs).filterMap (·.output.scriptRef)).map Script.hash := by
  rw [referencedScripts, OrdMap.mem_keys_ofList, List.map_map]
  rfl

theorem exists_scriptFor_iff {h : ScriptHash} : (∃ script, d.scriptFor inputs h = some script) ↔
    (∃ script, d.scripts.get? h = some script) ∨ h ∈ (d.referencedScripts inputs).keys := by
  rw [OrdMap.mem_keys_iff, scriptFor]
  cases d.scripts.get? h <;> simp

def languageFor (d : Draft) (inputs : List Utxo) (h : ScriptHash) : Option Language :=
  (d.scriptFor inputs h).bind Script.language?

theorem languageFor_eq_some_iff {h : ScriptHash} {l : Language} :
    d.languageFor inputs h = some l ↔ ∃ code, d.scriptFor inputs h = some (.plutus l code) := by
  rw [languageFor, Option.bind_eq_some_iff]
  constructor
  · rintro ⟨script, found, spoken⟩
    cases script with
    | native n => cases spoken
    | plutus language code =>
      cases spoken
      exact ⟨code, found⟩
  · rintro ⟨code, found⟩
    exact ⟨_, found, rfl⟩

@[simp] theorem mem_mentionedKeys {scripts : List Script} {k : KeyHash} :
    k ∈ mentionedKeys scripts ↔ ∃ n, .native n ∈ scripts ∧ k ∈ n.keysIn := by
  rw [mentionedKeys, List.mem_flatMap]
  constructor
  · rintro ⟨script, mem, mentions⟩
    cases script with
    | native n => exact ⟨n, mem, mentions⟩
    | plutus language code => cases mentions
  · rintro ⟨n, mem, mentions⟩
    exact ⟨.native n, mem, mentions⟩

def Meets (d : Draft) (inputs : List Utxo) (q : Requirement) : Prop :=
  ∃ script, d.scriptFor inputs q.script = some script ∧ script.isPlutus = q.redeemer.isSome

theorem Meets.isSome_redeemer_iff {q : Requirement} (met : d.Meets inputs q) :
    q.redeemer.isSome = true ↔
      ∃ language code, d.scriptFor inputs q.script = some (.plutus language code) := by
  obtain ⟨script, found, takes⟩ := met
  rw [← takes, found]
  cases script with
  | native n => simp [Script.isPlutus, Script.language?]
  | plutus language code => simp [Script.isPlutus, Script.language?]

def redeemerOf (q : Requirement) : Option Redeemer :=
  q.redeemer.map (fun data => ⟨q.pointer, data, .zero⟩)

inductive Supplies (d : Draft) (source : DatumSource) (u : Utxo) (h : DatumHash)
    (data : PlutusData) : Prop
  | pinned : (d.inputs.get? u.ref).bind Pinned.datum = some data → data.hash = h →
    Supplies d source u h data
  | attached : (d.inputs.get? u.ref).bind Pinned.datum = none → d.datums.get? h = some data →
    Supplies d source u h data
  | known : (d.inputs.get? u.ref).bind Pinned.datum = none → d.datums.get? h = none →
    source h = some data → Supplies d source u h data

inductive Shows (d : Draft) (source : DatumSource) (u : Utxo) :
    Language → Option (DatumHash × PlutusData) → Prop
  | inline {language : Language} {data : PlutusData} : u.output.datum = some (.inline data) →
    Shows d source u language none
  | hashed {language : Language} {h : DatumHash} {data : PlutusData} :
    u.output.datum = some (.hash h) → d.Supplies source u h data →
    Shows d source u language (some (h, data))
  | unneeded : u.output.datum = none → Shows d source u .v3 none

theorem spendDatum_eq_ok_iff {u : Utxo} {language : Language}
    {found : Option (DatumHash × PlutusData)} :
    d.spendDatum source u language = .ok found ↔ d.Shows source u language found := by
  constructor
  · intro h
    unfold spendDatum at h
    split at h
    · rename_i asked datum
      split at h
      · rename_i data pinned
        split at h <;> cases h
        rename_i hash
        exact .hashed datum (.pinned pinned hash)
      · rename_i pinned
        split at h <;> cases h
        rename_i data at_hand
        rcases Option.or_eq_some_iff.mp at_hand with attached | ⟨unattached, known⟩
        · exact .hashed datum (.attached pinned attached)
        · exact .hashed datum (.known pinned unattached known)
    · rename_i data datum
      cases h
      exact .inline datum
    · rename_i datum
      split at h <;> cases h
      rename_i last
      exact last ▸ .unneeded datum
  · intro shows
    cases shows with
    | inline datum => simp [spendDatum, datum]
    | hashed datum supplies =>
      cases supplies with
      | pinned pinned hash => simp [spendDatum, datum, pinned, hash]
      | attached pinned attached => simp [spendDatum, datum, pinned, attached]
      | known pinned unattached known => simp [spendDatum, datum, pinned, unattached, known]
    | unneeded datum => simp [spendDatum, datum]

/-- What one requirement brings: a native script the keys that it mentions, and compiled code its
language, its redeemer and, where it unlocks an input, the datum that it reads. -/
inductive Brings (d : Draft) (source : DatumSource) (inputs : List Utxo)
    (acc : Resolution × OrdMap DatumHash PlutusData) (q : Requirement) :
    Resolution × OrdMap DatumHash PlutusData → Prop
  | native {n : NativeScript} : d.scriptFor inputs q.script = some (.native n) →
    q.redeemer = none →
    Brings d source inputs acc q ({ acc.1 with keys := acc.1.keys.union n.keysIn }, acc.2)
  | allows {language : Language} {code : Bytes} {data : PlutusData} :
    d.scriptFor inputs q.script = some (.plutus language code) → q.redeemer = some data →
    spentAt inputs q.pointer = none →
    Brings d source inputs acc q (acc.1.running language q.pointer data, acc.2)
  | unlocks {language : Language} {code : Bytes} {data : PlutusData} {u : Utxo}
      {found : Option (DatumHash × PlutusData)} :
    d.scriptFor inputs q.script = some (.plutus language code) → q.redeemer = some data →
    spentAt inputs q.pointer = some u → d.Shows source u language found →
    Brings d source inputs acc q (acc.1.running language q.pointer data,
      found.elim acc.2 (fun (h, datum) => acc.2.insert h datum))

variable {acc acc' : Resolution × OrdMap DatumHash PlutusData} {q : Requirement}

theorem resolveOne_eq_ok_iff :
    d.resolveOne source inputs (d.referencedScripts inputs) acc q = .ok acc' ↔
      d.Brings source inputs acc q acc' := by
  constructor
  · intro h
    unfold resolveOne at h
    simp only at h
    split at h
    · cases h
    · rename_i n script given
      cases h
      exact .native script given
    · cases h
    · cases h
    · rename_i language code data script given
      cases spent : spentAt inputs q.pointer with
      | none =>
        rw [spent] at h
        cases h
        exact .allows script given spent
      | some u =>
        rw [spent] at h
        obtain ⟨found, read, h⟩ := Except.bind_eq_ok.mp h
        obtain rfl := Except.pure_eq_ok.mp h
        have brings : d.Brings source inputs acc q _ :=
          .unlocks script given spent (spendDatum_eq_ok_iff.mp read)
        cases found <;> exact brings
  · intro brings
    unfold resolveOne
    cases brings with
    | native script given =>
      rw [scriptFor] at script
      simp [script, given]
    | allows script given spent =>
      rw [scriptFor] at script
      simp only [script, given, spent]
      rfl
    | @unlocks language code data u found script given spent shows =>
      rw [scriptFor] at script
      simp only [script, given, spent, spendDatum_eq_ok_iff.mpr shows]
      cases found <;> rfl

theorem Brings.meets (brings : d.Brings source inputs acc q acc') : d.Meets inputs q := by
  cases brings with
  | native script given | allows script given | unlocks script given =>
    exact ⟨_, script, by rw [given]; rfl⟩

theorem resolveOne_ok
    (h : d.resolveOne source inputs (d.referencedScripts inputs) acc q = .ok acc') :
    d.Meets inputs q ∧
      acc'.1.redeemers = acc.1.redeemers ++ (redeemerOf q).toList ∧
      acc'.1.languages = acc.1.languages.union (d.languageFor inputs q.script).toList ∧
      acc'.1.keys = acc.1.keys.union (mentionedKeys (d.scriptFor inputs q.script).toList) := by
  have brings := resolveOne_eq_ok_iff.mp h
  refine ⟨brings.meets, ?_⟩
  cases brings with
  | native script given =>
    rw [redeemerOf, given, languageFor, script]
    exact ⟨(List.append_nil _).symm, rfl, by simp [mentionedKeys]⟩
  | allows script given | unlocks script given =>
    rw [redeemerOf, given, languageFor, script]
    exact ⟨rfl, rfl, rfl⟩

theorem foldlM_resolveOne_ok {qs : List Requirement}
    (h : qs.foldlM (d.resolveOne source inputs (d.referencedScripts inputs)) acc = .ok acc') :
    (∀ q ∈ qs, d.Meets inputs q) ∧
      acc'.1.redeemers = acc.1.redeemers ++ qs.filterMap redeemerOf ∧
      (∀ l, l ∈ acc'.1.languages.keys ↔ l ∈ acc.1.languages.keys ∨
        ∃ q ∈ qs, d.languageFor inputs q.script = some l) ∧
      ∀ k, k ∈ acc'.1.keys.keys ↔ k ∈ acc.1.keys.keys ∨
        ∃ q ∈ qs, k ∈ mentionedKeys (d.scriptFor inputs q.script).toList := by
  induction qs generalizing acc with
  | nil =>
    obtain rfl := Except.pure_eq_ok.mp h
    simp
  | cons q rest ih =>
    rw [List.foldlM_cons] at h
    obtain ⟨next, step, h⟩ := Except.bind_eq_ok.mp h
    obtain ⟨met, redeemers, languages, keys⟩ := resolveOne_ok step
    obtain ⟨others, more, run, all⟩ := ih h
    refine ⟨?_, ?_, ?_, ?_⟩
    · intro q' mem
      rcases List.mem_cons.mp mem with rfl | mem
      · exact met
      · exact others q' mem
    · rw [more, redeemers, List.filterMap_cons, List.append_assoc]
      cases redeemerOf q <;> rfl
    · intro l
      rw [run l, languages, OrdSet.mem_keys_union, Option.mem_toList, List.exists_mem_cons_iff,
        or_assoc]
    · intro k
      rw [all k, keys, OrdSet.mem_keys_union, List.exists_mem_cons_iff]
      tauto

structure Resolves (d : Draft) (inputs : List Utxo) (r : Resolution) where
  requirements : List Requirement
  listed : requirements =
    Purpose.all.flatMap (fun purpose => Requirement.listed purpose 0 (d.actions inputs purpose))
  met : ∀ q ∈ requirements, d.Meets inputs q
  redeemers : r.redeemers = Ranked.sortOn Redeemer.pointer (requirements.filterMap redeemerOf)
  languages : ∀ l, l ∈ r.languages.keys ↔ ∃ q ∈ requirements, d.languageFor inputs q.script = some l
  keys : ∀ k, k ∈ r.keys.keys ↔
    (∃ q ∈ requirements, k ∈ mentionedKeys (d.scriptFor inputs q.script).toList) ∨
      k ∈ mentionedKeys r.scripts ∨ k ∈ d.signingKeys inputs

theorem resolve_ok {r : Resolution} (h : d.resolve source inputs = .ok r) :
    Nonempty (d.Resolves inputs r) := by
  obtain ⟨requirements, listed, h⟩ := Except.bind_eq_ok.mp h
  obtain ⟨⟨found, datums⟩, steps, h⟩ := Except.bind_eq_ok.mp h
  obtain rfl := Except.pure_eq_ok.mp h
  obtain ⟨met, redeemers, languages, keys⟩ := foldlM_resolveOne_ok steps
  refine ⟨{ requirements, met, listed := requirements_ok listed
            redeemers := ?_, languages := ?_, keys := ?_ }⟩
  · exact congrArg (Ranked.sortOn Redeemer.pointer) redeemers
  · intro l
    rw [languages l]
    simp
  · intro k
    rw [OrdSet.mem_keys_union, OrdSet.mem_keys_union, keys k]
    simp [or_assoc]

theorem resolve_scripts {r : Resolution} (h : d.resolve source inputs = .ok r) :
    r.scripts = d.carriedScripts (d.referencedScripts inputs) := by
  obtain ⟨_, _, h⟩ := Except.bind_eq_ok.mp h
  obtain ⟨_, _, h⟩ := Except.bind_eq_ok.mp h
  obtain rfl := Except.pure_eq_ok.mp h
  rfl

theorem Resolves.requirement_iff {r : Resolution} (resolves : d.Resolves inputs r)
    {q : Requirement} : q ∈ resolves.requirements ↔
      ∃ i a, (d.actions inputs q.pointer.purpose)[i]? = some a ∧ a.script = some q.script ∧
        q.pointer.index = UInt32.ofNat i ∧ q.redeemer = a.redeemer := by
  rw [resolves.listed]
  exact mem_required

end Draft

end ConwayTx
