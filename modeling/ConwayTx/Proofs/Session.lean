import ConwayTx.Session
import ConwayTx.Proofs.Balance.Accepted
import ConwayTx.Proofs.OrdMap

namespace ConwayTx

namespace Steps

def whole (w : Work) : Except BuildError Work → EStateM.Result BuildError Work Unit
  | .ok w' => .ok () w'
  | .error e => .error e w

theorem demand_bind {α β : Type} (x : Except BuildError α) (f : α → Steps β) (w : Work) :
    (demand x >>= f) w = match x with
      | .ok a => f a w
      | .error e => .error e w := by
  cases x <;> rfl

theorem demand_draft {α : Type} (x : Except BuildError α) (f : α → Draft → Draft) (w : Work) :
    (demand x >>= fun a => draft (f a)) w = whole w (x.map (fun a => w.onDraft (f a))) := by
  cases x <;> rfl

theorem noteScriptRef_bind {β : Type} (u : Utxo) (f : Unit → Steps β) (w : Work) :
    (noteScriptRef u >>= f) w = f () (w.noteScriptRef u) := by
  unfold noteScriptRef Work.noteScriptRef
  cases u.output.scriptRef <;> rfl

theorem get_bind {β : Type} (f : Work → Steps β) (w : Work) : (get >>= f) w = f w w := rfl

theorem mint_bind {β : Type} (f : Mint → Mint) (g : Unit → Steps β) (w : Work) :
    (mint f >>= g) w = g () (w.onDraft (fun d => { d with mint := f d.mint })) := rfl

theorem addLocked_eq (a : Address) (v : Value) (attached : Option Datum) (w : Work) :
    addLocked a v attached w = whole w
      (if a.isScript then .ok (w.addOutput { address := a, value := v, datum := attached })
      else .error .notScriptAddress) := by
  unfold addLocked
  cases a.isScript <;> rfl

theorem addInput_eq (p : Pinned) (w : Work) :
    addInput p w = .ok () ((w.noteScriptRef p.utxo).onDraft (·.addInput p)) := by
  unfold addInput
  rw [noteScriptRef_bind]
  cases attached : p.datum <;> simp [Draft.addInput, attached] <;> rfl

theorem quantity_open (m : Mint) (policy : PolicyId) (name : AssetName) :
    Mint.quantity (m.insert policy ((m.get? policy).getD ∅)) policy name =
      m.quantity policy name := by
  rw [Mint.quantity, Mint.quantity, OrdMap.get?_insert_self]
  cases m.get? policy <;> rfl

theorem zero_checkedAdd (n : Int64) : Int64.checkedAdd 0 n = some n := by
  apply Int64.ofInt?_eq_some_iff.mpr
  simp

theorem addMint_eq (policy : PolicyId) (name : AssetName) (amount : Int64)
    (redeemer : Option PlutusData) (w : Work) :
    addMint policy name amount redeemer w =
      whole w ((w.draft.addMint policy name amount redeemer).map
        (fun d => { w with draft := d })) := by
  unfold addMint Draft.addMint
  by_cases zero : amount = 0
  · rw [if_pos zero, if_pos zero]
    rfl
  rw [if_neg zero, if_neg zero]
  simp only [mint_bind, get_bind, Work.onDraft, quantity_open]
  cases added : (w.draft.mint.quantity policy name).checkedAdd amount with
  | none =>
    cases present : w.draft.mint.get? policy with
    | none =>
      rw [Mint.quantity, present] at added
      cases (zero_checkedAdd amount).symm.trans added
    | some names =>
      simp only [Option.getD_some, OrdMap.insert_of_get? present]
      rfl
  | some total =>
    simp only [mint_bind, get_bind, Work.onDraft, OrdMap.get?_insert_self, Option.getD_some,
      OrdMap.insert_insert]
    split
    · simp only [mint_bind, Work.onDraft, OrdMap.erase_insert]
      rfl
    · cases redeemer <;> rfl

end Steps

open Steps

theorem Intent.steps_eq (p : Params) (i : Intent) (w : Work) :
    i.steps p w = whole w (i.perform p w) := by
  cases i with
  | input pin =>
    simp only [steps, perform]
    cases pin.redeemer.isSome with
    | false => exact addInput_eq pin w
    | true =>
      simp only [if_true, get_bind]
      refine (demand_bind _ _ w).trans ?_
      cases w.readyToRun with
      | error e => rfl
      | ok _ => exact addInput_eq pin w
  | referenceInput u => exact noteScriptRef_bind u _ w
  | mint policy name amount redeemer =>
    refine (demand_bind _ _ w).trans ?_
    simp only [perform]
    cases policy.policy with
    | error e => rfl
    | ok policy =>
      refine (demand_bind _ _ w).trans ?_
      cases name.assetName with
      | error e => rfl
      | ok name => exact addMint_eq policy name amount redeemer w
  | mintAsset id amount redeemer =>
    refine (demand_bind _ _ w).trans ?_
    simp only [perform]
    cases id.asset with
    | error e => rfl
    | ok id => exact addMint_eq id.policy id.name amount redeemer w
  | lock payee v attached =>
    refine (demand_bind _ _ w).trans ?_
    simp only [perform]
    cases payee.address with
    | error e => rfl
    | ok a => exact addLocked_eq a v attached w
  | delegateStake account =>
    refine (demand_bind _ _ w).trans ?_
    simp only [perform]
    cases account.account with
    | error e => rfl
    | ok a => exact demand_draft _ _ w
  | delegateVote account =>
    refine (demand_bind _ _ w).trans ?_
    simp only [perform]
    cases account.account with
    | error e => rfl
    | ok a => exact demand_draft _ _ w
  | vote voter action procedure redeemer => cases redeemer <;> rfl
  | changeAddress | collateralChangeAddress | send | signer | register | deregister |
      registerDRep | updateDRep | deregisterDRep | withdraw | metadata => exact demand_draft _ _ w
  | _ => rfl

namespace Session

inductive Call
  | intent (i : Intent)
  | build

def Call.isIntent : Call → Bool
  | intent _ => true
  | build => false

def run (s : Session) : List Call → Session × List (Except BuildError Tx)
  | [] => (s, [])
  | .intent i :: rest => (s.apply i).run rest
  | .build :: rest => ((s.build.1.run rest).1, s.build.2 :: (s.build.1.run rest).2)

variable {s : Session} {e : BuildError}

theorem apply_building (ready : s.phase = .building) (i : Intent) :
    s.apply i = match i.perform s.setup.params s.work with
      | .ok w => { s with work := w }
      | .error e => { s with phase := .failed e } := by
  simp only [apply, ready, Intent.steps_eq]
  cases i.perform s.setup.params s.work <;> rfl

theorem apply_failed (failed : s.phase = .failed e) (i : Intent) : s.apply i = s := by
  simp only [apply, failed]

theorem apply_built (built : s.phase = .built) (i : Intent) :
    s.apply i = { s with phase := .failed .alreadyBuilt } := by
  simp only [apply, built]

theorem build_building (ready : s.phase = .building) :
    s.build.1.phase = match s.build.2 with
      | .ok _ => .built
      | .error e => .failed e := by
  simp only [build, ready]
  cases balance s.setup s.work.draft s.work.pools <;> rfl

theorem build_failed (failed : s.phase = .failed e) : s.build = (s, .error e) := by
  simp only [build, failed]

theorem build_built (built : s.phase = .built) : s.build = (s, .error .alreadyBuilt) := by
  simp only [build, built]

theorem built_of_build {tx : Tx} (h : s.build.2 = .ok tx) : s.build.1.phase = .built := by
  cases phase : s.phase with
  | building => rw [build_building phase, h]
  | failed e => simp [build_failed phase] at h
  | built => simp [build_built phase] at h

theorem run_failed (failed : s.phase = .failed e) (later : List Call) :
    (s.run later).1 = s ∧ ∀ r ∈ (s.run later).2, r = .error e := by
  induction later with
  | nil => exact ⟨rfl, fun _ mem => nomatch mem⟩
  | cons call rest ih =>
    cases call with
    | intent i =>
      rw [run, apply_failed failed]
      exact ih
    | build =>
      rw [run, build_failed failed]
      exact ⟨ih.1, List.forall_mem_cons.mpr ⟨rfl, ih.2⟩⟩

theorem run_built (built : s.phase = .built) (later : List Call) :
    (s.run later).1 = { s with
      phase := if later.any Call.isIntent then .failed .alreadyBuilt else .built } ∧
    ∀ r ∈ (s.run later).2, r = .error .alreadyBuilt := by
  induction later with
  | nil =>
    refine ⟨?_, fun _ mem => nomatch mem⟩
    simp [run, ← built]
  | cons call rest ih =>
    cases call with
    | intent i =>
      rw [run, apply_built built]
      exact run_failed rfl rest
    | build =>
      rw [run, build_built built]
      exact ⟨ih.1, List.forall_mem_cons.mpr ⟨rfl, ih.2⟩⟩

theorem build_run (ready : s.phase = .building) (is : List Intent) :
    (s.run (is.map .intent)).1.build.2 =
      (Intent.performAll s.setup.params s.work is).bind
        (fun w => balance s.setup w.draft w.pools) := by
  induction is generalizing s with
  | nil =>
    simp only [List.map_nil, run, build, ready]
    change _ = balance s.setup s.work.draft s.work.pools
    cases balance s.setup s.work.draft s.work.pools <;> rfl
  | cons i rest ih =>
    rw [List.map_cons, run, Intent.performAll, List.foldlM_cons, apply_building ready]
    cases i.perform s.setup.params s.work with
    | error e =>
      rw [(run_failed rfl _).1, build_failed rfl]
      rfl
    | ok w => exact ih ready

def outcome (setup : Setup) (magic : Option UInt32) (is : List Intent) : Except BuildError Tx :=
  ((start setup magic).run (is.map .intent)).1.build.2

theorem outcome_ok {setup : Setup} {magic : Option UInt32} {is : List Intent} {tx : Tx}
    (h : outcome setup magic is = .ok tx) :
    ∃ w, Intent.performAll setup.params (start setup magic).work is = .ok w ∧
      balance setup w.draft w.pools = .ok tx := by
  rw [outcome, build_run rfl] at h
  exact Except.bind_eq_ok.mp h

theorem countP_isOk_eq_zero {answers : List (Except BuildError Tx)}
    (failed : ∀ r ∈ answers, r = .error e) : answers.countP Except.isOk = 0 := by
  apply List.countP_eq_zero.mpr
  intro r mem
  rw [failed r mem]
  exact Bool.false_ne_true

theorem countP_isOk_run_le (s : Session) (calls : List Call) :
    (s.run calls).2.countP Except.isOk ≤ 1 := by
  induction calls generalizing s with
  | nil => exact Nat.zero_le 1
  | cons call rest ih =>
    cases call with
    | intent i => exact ih (s.apply i)
    | build =>
      rw [run, List.countP_cons]
      cases answer : s.build.2 with
      | error e => exact ih s.build.1
      | ok tx =>
        have built := built_of_build answer
        rw [countP_isOk_eq_zero (run_built built rest).2]
        exact Nat.le_refl 1

/-- Whatever has been called so far: an intent that fails only records its error, a build records
its outcome, an error stays, and there is one transaction at most. -/
theorem first_error_stays (setup : Setup) (magic : Option UInt32) (calls : List Call) :
    let s := ((start setup magic).run calls).1
    (∀ i e left, s.phase = .building → i.steps s.setup.params s.work = .error e left →
      s.apply i = { s with phase := .failed e }) ∧
    (∀ e, s.phase = .building → s.build.2 = .error e → s.build.1.phase = .failed e) ∧
    (∀ e, s.phase = .failed e → ∀ later,
      (s.run later).1 = s ∧ ∀ r ∈ (s.run later).2, r = .error e) ∧
    ((start setup magic).run calls).2.countP Except.isOk ≤ 1 ∧
    (∀ tx, s.build.2 = .ok tx → ∀ later,
      (s.build.1.run later).1 = { s.build.1 with
        phase := if later.any Call.isIntent then .failed .alreadyBuilt else .built } ∧
      ∀ r ∈ (s.build.1.run later).2, r = .error .alreadyBuilt) := by
  intro s
  refine ⟨?_, ?_, ?_, ?_, ?_⟩
  · intro i e left ready failed
    rw [Intent.steps_eq] at failed
    rw [apply_building ready]
    cases result : i.perform s.setup.params s.work with
    | ok w =>
      rw [result] at failed
      cases failed
    | error e' =>
      rw [result] at failed
      cases failed
      rfl
  · intro e ready failed
    rw [build_building ready, failed]
  · intro e failed later
    exact run_failed failed later
  · exact countP_isOk_run_le (start setup magic) calls
  · intro tx answer later
    exact run_built (built_of_build answer) later

end Session

namespace Sample

def minted (amount : Int64) : Intent :=
  .mint (.value (hash 4)) (.value ⟨[2], by decide⟩) amount none

def minting : Session := ((Session.start setup none).run [.intent (minted 5)]).1

def funded : Session := ((Session.start setup none).run
  [.intent (.changeAddress (.value (keyAddress 3))),
    .intent (.utxos [utxo 0 (keyAddress 1) (.ofLovelace 10000000)])]).1

theorem funded_builds :
    funded.build.2.satisfies (fun tx => tx.body.outputs.length == 1) = true := by
  decide +kernel

end Sample

open Sample in
theorem Session.first_error_stays_minting :
    (minting.apply (minted 0x7fffffffffffffff) =
      { minting with phase := .failed (.mintOverflow (hash 4) ⟨[2], by decide⟩) }) ∧
    ∃ tx, funded.build.2 = .ok tx ∧ ∀ later, ∀ r ∈ (funded.build.1.run later).2,
      r = .error .alreadyBuilt := by
  constructor
  · exact (first_error_stays Sample.setup none [.intent (minted 5)]).1 _ _ _ rfl rfl
  · obtain ⟨tx, built, _⟩ := Except.satisfies_iff.mp funded_builds
    obtain ⟨_, _, _, _, once⟩ := first_error_stays Sample.setup none
      [.intent (.changeAddress (.value (keyAddress 3))),
        .intent (.utxos [utxo 0 (keyAddress 1) (.ofLovelace 10000000)])]
    exact ⟨tx, built, fun later => (once tx built later).2⟩

end ConwayTx
