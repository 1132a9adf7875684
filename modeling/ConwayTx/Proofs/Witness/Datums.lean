import ConwayTx.Chain
import ConwayTx.Proofs.Balance.MinLovelace
import ConwayTx.Proofs.Cbor.Writing
import ConwayTx.Proofs.Intent
import ConwayTx.Proofs.Witness.Pairing
import ConwayTx.Proofs.Witness.Satisfiable

namespace ConwayTx

open Cbor (Item)
open Ranked (Precedes)

def DatumSource.Keyed (source : DatumSource) : Prop :=
  ∀ k data, source k = some data → data.hash = k

theorem Chain.keyed_addDatums {c : Chain} (keyed : DatumSource.Keyed c.datum?)
    (known : List PlutusData) : DatumSource.Keyed (known.foldl addDatum c).datum? := by
  induction known generalizing c with
  | nil => exact keyed
  | cons data rest ih => exact ih (c := c.addDatum data) (OrdMap.forall_get?_insert keyed rfl)

structure Gathers (needed : DatumHash → Prop) (m m' : OrdMap DatumHash PlutusData) : Prop where
  keyed : DatumSource.Keyed m.get? → DatumSource.Keyed m'.get?
  present : ∀ k, needed k → ∃ data, m'.get? k = some data
  kept : ∀ k, ¬ needed k → m'.get? k = m.get? k

namespace Gathers

variable {needed others : DatumHash → Prop} {m m' m'' : OrdMap DatumHash PlutusData}

theorem nothing (none : ∀ k, ¬ needed k) : Gathers needed m m where
  keyed := id
  present k need := absurd need (none k)
  kept _ _ := rfl

theorem insert {data : PlutusData} (only : ∀ k, needed k ↔ k = data.hash) :
    Gathers needed m (m.insert data.hash data) where
  keyed keyed := OrdMap.forall_get?_insert keyed rfl
  present k need := ⟨data, by rw [(only k).mp need, OrdMap.get?_insert_self]⟩
  kept k none := OrdMap.get?_insert_of_ne m data (fun same => none ((only k).mpr same.symm))

theorem trans (first : Gathers needed m m') (second : Gathers others m' m'') :
    Gathers (fun k => needed k ∨ others k) m m'' where
  keyed := second.keyed ∘ first.keyed
  present k need := by
    -- Either it is put in later, or it is there before and left alone.
    by_cases later : others k
    · exact second.present k later
    · rw [second.kept k later]
      exact first.present k (need.resolve_right later)
  kept k none := by
    rw [not_or] at none
    rw [second.kept k none.2, first.kept k none.1]

theorem congr (same : ∀ k, needed k ↔ others k) (h : Gathers needed m m') :
    Gathers others m m' where
  keyed := h.keyed
  present k need := h.present k ((same k).mpr need)
  kept k none := h.kept k (fun need => none ((same k).mp need))

section Keyed

variable (h : Gathers needed m m') (keyed : DatumSource.Keyed m.get?)
include h keyed

theorem hashes_strict : (m'.values.map PlutusData.hash).Pairwise Precedes := by
  rw [OrdMap.map_values_eq_keys (h.keyed keyed)]
  exact m'.keys_strict

theorem exists_mem {k : DatumHash} (need : needed k) : ∃ data ∈ m'.values, data.hash = k := by
  obtain ⟨data, found⟩ := h.present k need
  exact ⟨data, OrdMap.mem_values_iff.mpr ⟨k, found⟩, h.keyed keyed k data found⟩

theorem needed_or_kept {data : PlutusData} (mem : data ∈ m'.values) :
    needed data.hash ∨ m.get? data.hash = some data := by
  obtain ⟨k, found⟩ := OrdMap.mem_values_iff.mp mem
  obtain rfl := h.keyed keyed k data found
  by_cases need : needed data.hash
  · exact .inl need
  · rw [← h.kept _ need]
    exact .inr found

end Keyed

end Gathers

namespace Draft

structure Reads (d : Draft) (inputs : List Utxo) (script : ScriptHash) (u : Utxo)
    (k : DatumHash) : Prop where
  compiled : ∃ language code, d.scriptFor inputs script = some (.plutus language code)
  hashed : u.output.datum = some (.hash k)

def Asks (d : Draft) (inputs : List Utxo) (q : Requirement) (k : DatumHash) : Prop :=
  ∃ u, spentAt inputs q.pointer = some u ∧ d.Reads inputs q.script u k

def Needs (d : Draft) (inputs : List Utxo) (k : DatumHash) : Prop :=
  ∃ u ∈ inputs, ∃ script, u.output.scriptHash? = some script ∧ d.Reads inputs script u k

variable {d : Draft} {source : DatumSource} {inputs : List Utxo}

theorem exists_asks_iff (few : inputs.length < UInt32.size) {k : DatumHash} :
    (∃ q ∈ d.required inputs, d.Asks inputs q k) ↔ d.Needs inputs k := by
  have none := d.forall_spentAt_iff few (P := fun u script => ¬ d.Reads inputs script u k)
  rw [← not_iff_not]
  simpa [Asks, Needs] using none

section Keyed

variable (own : DatumSource.Keyed d.datums.get?) (known : DatumSource.Keyed source)
include own known

theorem Supplies.hash_eq {u : Utxo} {k : DatumHash} {data : PlutusData}
    (supplies : d.Supplies source u k data) : data.hash = k := by
  cases supplies with
  | pinned _ hash => exact hash
  | attached _ found => exact own k data found
  | known _ _ found => exact known k data found

theorem Brings.gathers {acc acc' : Resolution × OrdMap DatumHash PlutusData} {q : Requirement}
    (brings : d.Brings source inputs acc q acc') : Gathers (d.Asks inputs q) acc.2 acc'.2 := by
  cases brings with
  | native script =>
    refine .nothing ?_
    rintro k ⟨u, _, ⟨language, code, compiled⟩, _⟩
    cases script.symm.trans compiled
  | allows _ _ unspent =>
    refine .nothing ?_
    rintro k ⟨u, spent, _⟩
    cases unspent.symm.trans spent
  | @unlocks language code _ u _ script _ spent shows =>
    have asks (k : DatumHash) : d.Asks inputs q k ↔ u.output.datum = some (.hash k) := by
      constructor
      · rintro ⟨v, there, reads⟩
        cases spent.symm.trans there
        exact reads.hashed
      · exact fun hashed => ⟨u, spent, ⟨language, code, script⟩, hashed⟩
    cases shows with
    | inline datum | unneeded datum => exact .nothing (by simp [asks, datum])
    | hashed datum supplies =>
      obtain rfl := supplies.hash_eq own known
      exact .insert (by simp [asks, datum, eq_comm])

theorem foldlM_resolveOne_gathers {qs : List Requirement}
    {acc acc' : Resolution × OrdMap DatumHash PlutusData}
    (h : qs.foldlM (d.resolveOne source inputs (d.referencedScripts inputs)) acc = .ok acc') :
    Gathers (fun k => ∃ q ∈ qs, d.Asks inputs q k) acc.2 acc'.2 := by
  induction qs generalizing acc with
  | nil =>
    obtain rfl := Except.pure_eq_ok.mp h
    exact .nothing (by simp)
  | cons q rest ih =>
    rw [List.foldlM_cons] at h
    obtain ⟨next, step, h⟩ := Except.bind_eq_ok.mp h
    have here := (resolveOne_eq_ok_iff.mp step).gathers own known
    have all := here.trans (ih h)
    exact all.congr fun k => (List.exists_mem_cons_iff _ _ _).symm

theorem resolve_gathers {r : Resolution} (h : d.resolve source inputs = .ok r) :
    ∃ m, r.datums = m.values ∧
      Gathers (fun k => ∃ q ∈ d.required inputs, d.Asks inputs q k) d.datums m := by
  obtain ⟨requirements, listed, h⟩ := Except.bind_eq_ok.mp h
  obtain ⟨⟨found, m⟩, steps, h⟩ := Except.bind_eq_ok.mp h
  obtain rfl := Except.pure_eq_ok.mp h
  obtain rfl := requirements_ok listed
  exact ⟨m, rfl, foldlM_resolveOne_gathers own known steps⟩

end Keyed

end Draft

theorem TxBody.count_inputs_le (b : TxBody) : b.inputs.keys.length ≤ b.encode.length := by
  have entry : (.nat 0, refsItem b.inputs) ∈ b.entries := by simp [entries]
  calc
    b.inputs.keys.length = (refsItem b.inputs).children.length := by
      simp [refsItem, Item.children]
    _ ≤ (refsItem b.inputs).encode.length := Item.count_children_le _
    _ ≤ (Item.encodeEntries b.entries).length := Item.length_encode_le_encodeEntries entry
    _ ≤ b.encode.length := by
      rw [encode, toItem, Item.encode, List.length_append]
      exact Nat.le_add_left _ _

namespace Balance

variable {s : Setup} {d : Draft} {pools : Pools} {plan : Plan} {state : State} {tx : Tx}

namespace Accepted

theorem count_inputs_lt (planned : Planned s.params d pools plan) (pins : d.PinsByRef)
    (lawful : s.select.Lawful) (a : Accepted s d pools plan state tx) :
    a.inputs.length < UInt32.size := by
  have finished := finish_ok a.finished
  obtain ⟨bytes, encoded, fits⟩ := checkSize_ok finished.size
  calc
    a.inputs.length = tx.body.inputs.keys.length := by
      rw [a.tx_inputs_keys planned pins lawful, List.length_map]
    _ = a.full.body.inputs.keys.length := by rw [finished.body_eq]
    _ ≤ a.full.body.encode.length := TxBody.count_inputs_le _
    _ ≤ bytes.length := Tx.length_body_le encoded
    _ ≤ s.params.maxTxSize.toNat := fits
    _ < UInt32.size := UInt32.toNat_lt_size _

theorem datums_gathered (a : Accepted s d pools plan state tx)
    (own : DatumSource.Keyed d.datums.get?) (known : DatumSource.Keyed s.datums) :
    ∃ m, tx.witnesses.datums = m.values ∧
      Gathers (fun k => ∃ q ∈ d.required a.inputs, d.Asks a.inputs q k) d.datums m := by
  obtain ⟨r, resolved, same⟩ := a.prepared.resolved
  obtain ⟨m, datums, gathers⟩ := Draft.resolve_gathers own known resolved
  have carried : a.parts.resolution.unpriced.datums = r.unpriced.datums :=
    congrArg Resolution.datums same
  exact ⟨m, (a.tx_datums.trans carried).trans datums, gathers⟩

end Accepted

/-- Datums are carried in the strict order of their hashes. Those that inputs need are carried, and
each that is carried was attached by an intent or is one that an input needs. -/
theorem datums_carried {p : Params} {g : Genesis} {is : List Intent} {w : Work} {c : Chain}
    {known : List PlutusData} (made : Intent.performAll p { genesis := g } is = .ok w)
    (fresh : c.datums = ∅) (filled : s.datums = (known.foldl Chain.addDatum c).datum?)
    (h : balance s w.draft pools = .ok tx) :
    ∃ spent : List Utxo, tx.body.inputs = OrdSet.ofList (spent.map Utxo.ref) ∧
      (s.select.Lawful → spent = pools.spent w.draft tx ∧ spent.length < UInt32.size) ∧
      (tx.witnesses.datums.map PlutusData.hash).Pairwise Precedes ∧
      (spent.length < UInt32.size →
        (∀ k, w.draft.Needs spent k → ∃ data ∈ tx.witnesses.datums, data.hash = k) ∧
        ∀ data ∈ tx.witnesses.datums,
          (∃ i ∈ is, i.datum? = some data) ∨ w.draft.Needs spent data.hash) := by
  obtain ⟨plan, state, planned, ⟨a⟩⟩ := balance_ok h
  have planned := plan_ok planned
  have pins : w.draft.PinsByRef :=
    Draft.Reachable.pinsByRef ⟨w, Work.Reachable.performAll (.start _) made, rfl⟩
  have attached := Intent.performAll_datums made
  have own : DatumSource.Keyed w.draft.datums.get? :=
    fun k data found => (attached k data found).1
  have known : DatumSource.Keyed s.datums := by
    rw [filled]
    apply Chain.keyed_addDatums
    intro k data found
    rw [Chain.datum?, fresh] at found
    cases found
  obtain ⟨m, datums, gathers⟩ := a.datums_gathered own known
  rw [datums]
  refine ⟨a.inputs, a.tx_inputs, fun lawful => ?_, gathers.hashes_strict own, fun few => ?_⟩
  · exact ⟨a.inputs_eq_spent planned pins lawful, a.count_inputs_lt planned pins lawful⟩
  · have gathers := gathers.congr fun k => Draft.exists_asks_iff few
    refine ⟨fun k => gathers.exists_mem own, fun data mem => ?_⟩
    rcases gathers.needed_or_kept own mem with need | found
    · exact .inr need
    · exact .inl (attached data.hash data found).2

end Balance

namespace Sample

def vault : Utxo where
  ref := ⟨hash 1, 2⟩
  output := {
    address := .shelley ⟨.testnet, .script compiled.hash, .none⟩
    value := .ofLovelace 5000000
    datum := some (.hash (PlutusData.list []).hash) }

def archive : Chain := { params := setup.params, networkMagic := 1 }

def archived : Setup :=
  { setup with datums := ([.list [], .bytes []].foldl Chain.addDatum archive).datum? }

def opening : List Intent :=
  [.changeAddress (.value (keyAddress 3)),
    .collateralChangeAddress (.value (keyAddress 3)),
    .utxos [utxo 0 (keyAddress 1) (.ofLovelace 10000000)],
    .collateralUtxos [utxo 1 (keyAddress 1) (.ofLovelace 5000000)],
    .script compiled,
    .input ⟨vault, some (.list []), none⟩,
    .datum (.constr 0 [])]

def opened : Except BuildError (Work × Tx) := do
  let w ← Intent.performAll archived.params { genesis := .mainnet } opening
  let tx ← balance archived w.draft w.pools
  return (w, tx)

theorem opened_passes : opened.satisfies (fun (_, tx) =>
    tx.witnesses.datums.map PlutusData.hash ==
      [(PlutusData.list []).hash, (PlutusData.constr 0 []).hash]) = true := by
  decide +kernel

end Sample

theorem Balance.datums_carried_opened : ∃ w tx, Sample.opened = .ok (w, tx) ∧
    w.draft.Needs (w.pools.spent w.draft tx) (PlutusData.list []).hash ∧
    ∃ data ∈ tx.witnesses.datums, data.hash = (PlutusData.list []).hash := by
  obtain ⟨⟨w, tx⟩, opened, passes⟩ := Except.satisfies_iff.mp Sample.opened_passes
  have found : (PlutusData.list []).hash ∈ tx.witnesses.datums.map PlutusData.hash := by
    rw [eq_of_beq passes]
    exact List.mem_cons_self
  obtain ⟨data, mem, hash⟩ := List.mem_map.mp found
  obtain ⟨_, made, h⟩ := Except.bind_eq_ok.mp opened
  obtain ⟨_, balanced, h⟩ := Except.bind_eq_ok.mp h
  cases h
  obtain ⟨spent, _, lawful, _, carried⟩ :=
    datums_carried (c := Sample.archive) made rfl rfl balanced
  obtain ⟨rfl, few⟩ := lawful Selection.largestFirst_lawful
  obtain ⟨_, origin⟩ := carried few
  refine ⟨w, tx, opened, ?_, data, mem, hash⟩
  rcases origin data mem with ⟨i, listed, attached⟩ | need
  · have same : data = .constr 0 [] := by
      simp only [Sample.opening, List.mem_cons, List.not_mem_nil, or_false] at listed
      rcases listed with rfl | rfl | rfl | rfl | rfl | rfl | rfl <;> cases attached
      rfl
    rw [same] at hash
    exact absurd hash (by decide +kernel)
  · rwa [hash] at need

end ConwayTx
