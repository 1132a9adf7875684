import ConwayTx.Proofs.Balance.Plan
/-!
The round that a transaction comes from. Whatever was tried before, an accepted transaction is
made, priced and checked in one last round, and what that round did is all there is to know.
-/

namespace ConwayTx

def Redeemer.unpriced (r : Redeemer) : Redeemer := { r with units := .zero }

theorem Redeemer.spread_unpriced (budget : ExUnits) (rs : List Redeemer) :
    (Redeemer.spread budget rs).map unpriced = rs.map unpriced := by
  simp [Redeemer.spread, unpriced]

theorem Redeemer.applyBudgets_unpriced {budgets : Budgets} {rs rs' : List Redeemer}
    (h : applyBudgets budgets rs = (rs', .ok ())) : rs'.map unpriced = rs.map unpriced := by
  induction rs generalizing rs' with
  | nil =>
    cases h
    rfl
  | cons r rest ih =>
    unfold applyBudgets at h
    cases found : budgets.get? r.pointer with
    | none => simp [found] at h
    | some units =>
      cases later : applyBudgets budgets rest with
      | mk written outcome =>
        simp only [found, later, Prod.mk.injEq] at h
        obtain ⟨rfl, rfl⟩ := h
        rw [List.map_cons, List.map_cons, ih later]
        rfl

namespace Resolution

def unpriced (r : Resolution) : Resolution :=
  { r with redeemers := r.redeemers.map Redeemer.unpriced }

theorem spread_unpriced (r : Resolution) (budget : ExUnits) :
    (r.spread budget).unpriced = r.unpriced := by
  simp [spread, unpriced, Redeemer.spread_unpriced]

theorem needsCollateral_of_unpriced {r r' : Resolution} (h : r'.unpriced = r.unpriced) :
    r'.needsCollateral = r.needsCollateral := by
  have same : r'.redeemers.map Redeemer.unpriced = r.redeemers.map Redeemer.unpriced :=
    congrArg Resolution.redeemers h
  have empty := congrArg List.isEmpty same
  rw [List.isEmpty_map, List.isEmpty_map] at empty
  rw [needsCollateral, needsCollateral, empty]

theorem withBudgets_unpriced {r r' : Resolution} {budgets : Budgets}
    (h : r.withBudgets budgets = .ok r') : r'.unpriced = r.unpriced := by
  unfold withBudgets at h
  split at h
  · rename_i redeemers applied
    cases h
    simp [unpriced, Redeemer.applyBudgets_unpriced applied]
  · cases h

end Resolution

namespace Balance

variable {s : Setup} {d : Draft} {pools : Pools} {plan : Plan} {state : State} {tx : Tx}

theorem evaluate_ok {known known' : Option Evaluated} {parts parts' : Parts}
    (h : evaluate s d known parts = .ok (parts', known')) :
    parts' = { parts with resolution := parts'.resolution } ∧
      parts'.resolution.unpriced = parts.resolution.unpriced := by
  have spread := Resolution.spread_unpriced parts.resolution s.params.maxTxUnits
  unfold evaluate at h
  simp only at h
  split at h
  · obtain ⟨resolution, budgeted, h⟩ := Except.bind_eq_ok.mp h
    cases h
    exact ⟨rfl, Resolution.withBudgets_unpriced budgeted⟩
  · split at h
    · obtain ⟨draft, _, h⟩ := Except.bind_eq_ok.mp h
      obtain ⟨found, _, h⟩ := Except.bind_eq_ok.mp h
      obtain ⟨resolution, budgeted, h⟩ := Except.bind_eq_ok.mp h
      cases h
      exact ⟨rfl, (Resolution.withBudgets_unpriced budgeted).trans spread⟩
    · cases h
      exact ⟨rfl, spread⟩

structure Prepared (s : Setup) (d : Draft) (pools : Pools) (inputs : List Utxo)
    (outputs : List TxOut) (fee : UInt64) (parts : Parts) : Prop where
  inputs_eq : parts.inputs = inputs
  outputs_eq : parts.outputs = outputs
  fee_eq : parts.fee = fee
  resolved : ∃ r, d.resolve s.datums inputs = .ok r ∧ parts.resolution.unpriced = r.unpriced
  secured : ∀ c, parts.collateral = some c → Collateral.select s.params s.config d pools fee = .ok c
  isSome_collateral : parts.collateral.isSome = parts.resolution.needsCollateral

theorem prepare_ok {known known' : Option Evaluated} {inputs : List Utxo} {outputs : List TxOut}
    {fee : UInt64} {parts : Parts}
    (h : prepare s d pools known inputs outputs fee = .ok (parts, known')) :
    Prepared s d pools inputs outputs fee parts := by
  obtain ⟨resolution, resolved, h⟩ := Except.bind_eq_ok.mp h
  obtain ⟨collateral, secured, needed, h⟩ : ∃ collateral : Option Collateral,
      (∀ c, collateral = some c → Collateral.select s.params s.config d pools fee = .ok c) ∧
      collateral.isSome = resolution.needsCollateral ∧
      evaluate s d known ⟨inputs, outputs, fee, resolution, collateral⟩ = .ok (parts, known') := by
    simp only at h
    split at h
    · rename_i needed
      obtain ⟨_, secured, h⟩ := Except.bind_eq_ok.mp h
      obtain ⟨c, selected, rfl⟩ := Except.map_eq_ok.mp secured
      exact ⟨some c, fun _ same => Option.some.inj same ▸ selected, needed.symm, h⟩
    · rename_i unneeded
      exact ⟨none, by simp, by simpa using unneeded, h⟩
  obtain ⟨same, unpriced⟩ := evaluate_ok h
  rw [same]
  have needed := needed.trans (Resolution.needsCollateral_of_unpriced unpriced).symm
  exact ⟨rfl, rfl, rfl, ⟨resolution, resolved, unpriced⟩, secured, needed⟩

/-- How the difference between inputs and outputs is settled: there is none, it is put into an
output, or it is too little for one and adds to the fee. -/
inductive Settled (coinsPerByte : UInt64) (address : Address) (rest : Value) :
    Option TxOut → UInt64 → Prop
  | exact : rest.isZero = true → Settled coinsPerByte address rest none 0
  | output : Fee.requiredLovelace coinsPerByte { address := address, value := rest } ≤
      rest.lovelace →
      Settled coinsPerByte address rest (some { address := address, value := rest }) 0
  | dust : rest.hasAssets = false → Settled coinsPerByte address rest none rest.lovelace

structure Offer (s : Setup) (plan : Plan) (state : State) where
  spend : Value
  target : Value
  inputs : List Utxo
  rest : Value
  change : Option TxOut
  dust : UInt64
  spend_eq : plan.spend state.fee = .ok spend
  funded : plan.fund s.select target = .ok inputs
  rest_eq : (Utxo.total inputs + plan.implicit).checkedSub spend = some rest
  settled : Settled s.params.coinsPerUtxoByte plan.changeAddress rest change dust

/-- The last round of a balancing that succeeds. -/
structure Accepted (s : Setup) (d : Draft) (pools : Pools) (plan : Plan) (state : State)
    (tx : Tx) extends Offer s plan state where
  fee : UInt64
  parts : Parts
  known : Option Evaluated
  full : Tx
  fee_eq : state.fee.checkedAdd dust = some fee
  ran : prepare s d pools state.evaluated inputs (plan.outputs ++ change.toList) fee =
    .ok (parts, known)
  assembled : parts.assemble s.params d = .ok full
  priced : price s.params d plan parts full ≤ state.fee
  finished : finish s.params plan parts full = .ok tx

theorem Accepted.prepared (a : Accepted s d pools plan state tx) :
    Prepared s d pools a.inputs (plan.outputs ++ a.change.toList) a.fee a.parts :=
  prepare_ok a.ran

theorem orOverflow_eq_ok {o : Option UInt64} {n : UInt64} : orOverflow o = .ok n ↔ o = some n := by
  cases o <;> simp [orOverflow]

theorem attempt_done (o : Offer s plan state)
    (h : attempt s d pools plan state o.inputs o.change o.dust = .ok (.done tx)) :
    ∃ a : Accepted s d pools plan state tx, a.toOffer = o := by
  obtain ⟨fee, added, h⟩ := Except.bind_eq_ok.mp h
  obtain ⟨⟨parts, known⟩, ran, h⟩ := Except.bind_eq_ok.mp h
  obtain ⟨full, assembled, h⟩ := Except.bind_eq_ok.mp h
  simp only at h
  split at h
  · rename_i priced
    obtain ⟨_, finished, done⟩ := Except.map_eq_ok.mp h
    cases done
    have fee_eq := orOverflow_eq_ok.mp added
    exact ⟨{ o with fee, parts, known, full, fee_eq, ran, assembled, priced, finished }, rfl⟩
  · cases h

def Plan.target (plan : Plan) (spend : Value) (extra : UInt64) : Value :=
  (spend + Value.ofLovelace extra).saturatingSub plan.implicit

structure Draw (s : Setup) (plan : Plan) (state : State) where
  spend : Value
  inputs : List Utxo
  rest : Value
  spend_eq : plan.spend state.fee = .ok spend
  funded : plan.fund s.select (plan.target spend state.changeExtra) = .ok inputs
  rest_eq : (Utxo.total inputs + plan.implicit).checkedSub spend = some rest

theorem exists_draw_of_ok {outcome : Outcome} (h : round s d pools plan state = .ok outcome) :
    Nonempty (Draw s plan state) := by
  obtain ⟨spend, spend_eq, h⟩ := Except.bind_eq_ok.mp h
  obtain ⟨inputs, funded, h⟩ := Except.bind_eq_ok.mp h
  cases rest_eq : (Utxo.total inputs + plan.implicit).checkedSub spend with
  | none => simp [rest_eq] at h
  | some rest => exact ⟨⟨spend, inputs, rest, spend_eq, funded, rest_eq⟩⟩

namespace Draw

variable (r : Draw s plan state)

def least : UInt64 :=
  Fee.requiredLovelace s.params.coinsPerUtxoByte { address := plan.changeAddress, value := r.rest }

structure Short : Prop where
  hasAssets : r.rest.hasAssets = true
  lovelace_lt : r.rest.lovelace < r.least

def missing : UInt64 := r.least - r.rest.lovelace

def asking (v : Evaluator) : Draw { s with evaluate := v } plan state :=
  ⟨r.spend, r.inputs, r.rest, r.spend_eq, r.funded, r.rest_eq⟩

variable {r}

theorem Short.toNat_missing (short : r.Short) :
    r.missing.toNat = r.least.toNat - r.rest.lovelace.toNat :=
  UInt64.toNat_sub_of_le _ _ (UInt64.le_of_lt short.lovelace_lt)

theorem Short.lt (short : r.Short) : r.rest.lovelace.toNat < r.least.toNat :=
  UInt64.lt_iff_toNat_lt.mp short.lovelace_lt

theorem Short.not_isZero (short : r.Short) : r.rest.isZero = false := by
  rw [Value.isZero, short.hasAssets, Bool.not_true, Bool.and_false]

theorem round_eq (r : Draw s plan state) (d : Draft) (pools : Pools) :
    round s d pools plan state =
      match Change.of s.params.coinsPerUtxoByte plan.changeAddress r.rest with
      | .none => attempt s d pools plan state r.inputs none 0
      | .output o => attempt s d pools plan state r.inputs (some o) 0
      | .dust lovelace => attempt s d pools plan state r.inputs none lovelace
      | .short missing => do
        let changeExtra ← orOverflow (state.changeExtra.checkedAdd missing)
        return .again { state with changeExtra := changeExtra } := by
  rw [round, r.spend_eq]
  change (plan.fund s.select (plan.target r.spend state.changeExtra) >>= _) = _
  rw [r.funded]
  dsimp only [bind, Except.bind]
  cases left : (Utxo.total r.inputs + plan.implicit).checkedSub r.spend with
  | none => cases r.rest_eq.symm.trans left
  | some rest =>
    obtain rfl := Option.some.inj (r.rest_eq.symm.trans left)
    rfl

theorem Short.round_eq (short : r.Short) (d : Draft) (pools : Pools) :
    round s d pools plan state = do
      let changeExtra ← orOverflow (state.changeExtra.checkedAdd r.missing)
      return .again { state with changeExtra := changeExtra } := by
  have little := UInt64.not_le.mpr short.lovelace_lt
  unfold least at little
  rw [r.round_eq, Change.of]
  simp only [short.not_isZero, short.hasAssets, little, if_true, if_false, Bool.false_eq_true]
  rfl

theorem exists_offer (r : Draw s plan state) (settles : ¬ r.Short) (d : Draft) (pools : Pools) :
    ∃ o : Offer s plan state, ∀ v : Evaluator,
      round { s with evaluate := v } d pools plan state =
        attempt { s with evaluate := v } d pools plan state o.inputs o.change o.dust := by
  let offer (change : Option TxOut) (dust : UInt64)
      (settled : Settled s.params.coinsPerUtxoByte plan.changeAddress r.rest change dust) :
      Offer s plan state :=
    ⟨r.spend, _, r.inputs, r.rest, change, dust, r.spend_eq, r.funded, r.rest_eq, settled⟩
  simp only [fun v => (r.asking v).round_eq d pools, asking, Change.of]
  by_cases zero : r.rest.isZero = true
  · refine ⟨offer none 0 (.exact zero), fun v => ?_⟩
    simp only [zero, if_true, offer]
  · by_cases enough : r.least ≤ r.rest.lovelace
    · refine ⟨offer (some _) 0 (.output enough), fun v => ?_⟩
      unfold least at enough
      simp only [zero, enough, if_true, if_false, Bool.false_eq_true, offer]
    · have assets : r.rest.hasAssets = false := by
        rw [← Bool.not_eq_true]
        exact fun assets => settles ⟨assets, UInt64.not_le.mp enough⟩
      refine ⟨offer none r.rest.lovelace (.dust assets), fun v => ?_⟩
      unfold least at enough
      simp only [zero, enough, assets, if_false, Bool.false_eq_true, offer]

end Draw

theorem round_cases {outcome : Outcome} (h : round s d pools plan state = .ok outcome) :
    (∃ o : Offer s plan state, ∀ v : Evaluator,
      round { s with evaluate := v } d pools plan state =
        attempt { s with evaluate := v } d pools plan state o.inputs o.change o.dust) ∨
    ∃ extra, outcome = .again { state with changeExtra := extra } := by
  obtain ⟨r⟩ := exists_draw_of_ok h
  by_cases short : r.Short
  · rw [short.round_eq] at h
    obtain ⟨extra, _, made⟩ := Except.bind_eq_ok.mp h
    cases made
    exact .inr ⟨extra, rfl⟩
  · exact .inl (r.exists_offer short d pools)

theorem round_done (h : round s d pools plan state = .ok (.done tx)) :
    Nonempty (Accepted s d pools plan state tx) := by
  rcases round_cases h with ⟨o, same⟩ | ⟨_, again⟩
  · obtain ⟨a, _⟩ := attempt_done o ((same s.evaluate).symm.trans h)
    exact ⟨a⟩
  · cases again

theorem rounds_done (Inv : State → Prop)
    (step : ∀ {now next : State}, Inv now →
      round s d pools plan now = .ok (.again next) → Inv next)
    {left : Nat} (start : Inv state) (h : rounds s d pools plan left state = .ok tx) :
    ∃ last, Inv last ∧ round s d pools plan last = .ok (.done tx) := by
  -- On the rounds left: either this one is done, or the next one starts where it ended.
  induction left generalizing state with
  | zero => cases h
  | succ left ih =>
    obtain ⟨outcome, ran, h⟩ := Except.bind_eq_ok.mp h
    cases outcome with
    | done tx' =>
      cases h
      exact ⟨state, start, ran⟩
    | again next => exact ih (step start ran) h

theorem balance_ok (h : balance s d pools = .ok tx) :
    ∃ plan state, Balance.plan s.params d pools = .ok plan ∧
      Nonempty (Accepted s d pools plan state tx) := by
  obtain ⟨plan, planned, h⟩ := Except.bind_eq_ok.mp h
  obtain ⟨state, _, last⟩ := rounds_done (fun _ => True) (fun _ _ => trivial) trivial h
  exact ⟨plan, state, planned, round_done last⟩

theorem assemble_ok {p : Params} {parts : Parts} {full : Tx}
    (h : parts.assemble p d = .ok full) :
    ∃ hash, parts.resolution.scriptDataHash p.costModels = .ok hash ∧
      full = {
        body := parts.body d hash
        witnesses := { parts.resolution.witnesses with vkeys := parts.placeholders d.signerPadding }
        metadata := d.auxiliaryData } := by
  obtain ⟨hash, hashed, h⟩ := Except.bind_eq_ok.mp h
  cases h
  exact ⟨hash, hashed, rfl⟩

structure Finished (p : Params) (plan : Plan) (parts : Parts) (full tx : Tx) : Prop where
  units : checkUnits p parts.resolution.totalUnits = .ok ()
  values : checkValues p full.body.outputs = .ok ()
  size : checkSize p full = .ok ()
  balance : checkBalance plan parts.inputs full = .ok ()
  tx_eq : tx = { full with witnesses := { full.witnesses with vkeys := [] } }

theorem finish_ok {p : Params} {parts : Parts} {full : Tx}
    (h : finish p plan parts full = .ok tx) : Finished p plan parts full tx := by
  obtain ⟨_, units, h⟩ := Except.bind_eq_ok.mp h
  obtain ⟨_, values, h⟩ := Except.bind_eq_ok.mp h
  obtain ⟨_, size, h⟩ := Except.bind_eq_ok.mp h
  obtain ⟨_, balance, h⟩ := Except.bind_eq_ok.mp h
  cases h
  exact ⟨units, values, size, balance, rfl⟩

theorem checkSize_ok {p : Params} {full : Tx} (h : checkSize p full = .ok ()) :
    ∃ bytes, full.encode = .ok bytes ∧ bytes.length ≤ p.maxTxSize.toNat := by
  unfold checkSize at h
  cases encoded : full.encode with
  | error e => simp [encoded] at h
  | ok bytes =>
    refine ⟨bytes, rfl, ?_⟩
    by_contra beyond
    simp [encoded, Nat.lt_of_not_le beyond] at h

theorem Finished.body_eq {p : Params} {parts : Parts} {full : Tx}
    (h : Finished p plan parts full tx) : tx.body = full.body := by
  rw [h.tx_eq]

theorem Finished.witnesses_eq {p : Params} {parts : Parts} {full : Tx}
    (h : Finished p plan parts full tx) : tx.witnesses = { full.witnesses with vkeys := [] } := by
  rw [h.tx_eq]

namespace Accepted

variable (a : Accepted s d pools plan state tx)
include a

theorem body_eq : ∃ hash, tx.body = a.parts.body d hash := by
  obtain ⟨hash, _, full⟩ := assemble_ok a.assembled
  refine ⟨hash, ?_⟩
  calc
    tx.body = a.full.body := (finish_ok a.finished).body_eq
    _ = a.parts.body d hash := by rw [full]

theorem of_body {α : Type} {f : TxBody → α} {x : α} (h : ∀ hash, f (a.parts.body d hash) = x) :
    f tx.body = x := by
  obtain ⟨hash, body⟩ := a.body_eq
  rw [body]
  exact h hash

theorem tx_inputs : tx.body.inputs = OrdSet.ofList (a.inputs.map Utxo.ref) := by
  apply a.of_body
  intro hash
  rw [← a.prepared.inputs_eq]
  rfl

theorem tx_outputs : tx.body.outputs = plan.outputs ++ a.change.toList := by
  apply a.of_body
  intro hash
  rw [← a.prepared.outputs_eq]
  rfl

theorem tx_fee : tx.body.fee = a.fee := a.of_body (fun _ => a.prepared.fee_eq)

theorem toNat_tx_fee : tx.body.fee.toNat = state.fee.toNat + a.dust.toNat := by
  rw [a.tx_fee, UInt64.checkedAdd_eq_some_iff.mp a.fee_eq]

theorem tx_mint : tx.body.mint = d.mint := a.of_body (fun _ => rfl)

theorem tx_certificates : tx.body.certificates = d.certificates.map Guarded.action :=
  a.of_body (fun _ => rfl)

theorem tx_withdrawals : tx.body.withdrawals = d.withdrawals.mapValues (fun _ w => w.action) :=
  a.of_body (fun _ => rfl)

theorem tx_votes : tx.body.votes = d.votes := a.of_body (fun _ => rfl)

theorem tx_proposals : tx.body.proposals = d.proposals.map Guarded.action :=
  a.of_body (fun _ => rfl)

theorem tx_requiredSigners : tx.body.requiredSigners = d.requiredSigners :=
  a.of_body (fun _ => rfl)

theorem tx_witnesses :
    tx.witnesses = { a.parts.resolution.witnesses with vkeys := [] } := by
  obtain ⟨hash, _, full⟩ := assemble_ok a.assembled
  calc
    tx.witnesses = { a.full.witnesses with vkeys := [] } := (finish_ok a.finished).witnesses_eq
    _ = { a.parts.resolution.witnesses with vkeys := [] } := by rw [full]

end Accepted

section Lawful

variable (planned : Planned s.params d pools plan) (pins : d.PinsByRef) (lawful : s.select.Lawful)
include planned pins lawful

theorem Plan.fund_named {target : Value} {inputs : List Utxo}
    (funded : plan.fund s.select target = .ok inputs) :
    ∀ u ∈ inputs, pools.named d u.ref = some u := by
  obtain ⟨chosen, perm, offered⟩ := (Plan.fund_ok funded).drawn
  intro u mem
  rcases List.mem_append.mp (perm.mem_iff.mp mem) with pinned | selected
  · rw [planned.pinned] at pinned
    obtain ⟨pin, there, rfl⟩ := List.mem_map.mp pinned
    obtain ⟨r, found⟩ := OrdMap.mem_values_iff.mp there
    rw [pins r pin found, Pools.named, found]
  · exact Pools.named_of_candidate planned.candidates u ((offered lawful).subset selected)

theorem Plan.fund_strict {target : Value} {inputs : List Utxo}
    (funded : plan.fund s.select target = .ok inputs) :
    (inputs.map Utxo.ref).Pairwise Ranked.Precedes := by
  obtain ⟨⟨chosen, perm, offered⟩, sorted, _⟩ := Plan.fund_ok funded
  apply Ranked.strict_of_sorted _ sorted
  rw [(perm.map Utxo.ref).nodup_iff, List.map_append, planned.pinned, pins.pinned_refs]
  exact Pools.candidates_apart planned.candidates (offered lawful)

theorem Accepted.tx_inputs_keys (a : Accepted s d pools plan state tx) :
    tx.body.inputs.keys = a.inputs.map Utxo.ref := by
  rw [a.tx_inputs, OrdSet.keys_ofList_of_strict (plan.fund_strict planned pins lawful a.funded)]

theorem Plan.fund_eq_named {target : Value} {inputs : List Utxo}
    (funded : plan.fund s.select target = .ok inputs) :
    inputs = (OrdSet.ofList (inputs.map Utxo.ref)).keys.filterMap (pools.named d) := by
  have named := plan.fund_named planned pins lawful funded
  rw [OrdSet.keys_ofList_of_strict (plan.fund_strict planned pins lawful funded),
    List.filterMap_map]
  exact ((List.filterMap_congr named).trans List.filterMap_some).symm

theorem Accepted.inputs_eq_spent (a : Accepted s d pools plan state tx) :
    a.inputs = pools.spent d tx := by
  rw [Pools.spent, a.tx_inputs]
  exact plan.fund_eq_named planned pins lawful a.funded

end Lawful

end Balance

/-! Keys, outputs and a setup for balancing on a small scale. -/

namespace Sample

def hash {width : Nat} (b : UInt8) : Hash width := ⟨List.replicate width b, List.length_replicate⟩

def keyAddress (b : UInt8) : Address := .shelley ⟨.testnet, .key (hash b), .none⟩

def scriptAddress (b : UInt8) : Address := .shelley ⟨.testnet, .script (hash b), .none⟩

def utxo (index : UInt16) (address : Address) (value : Value) : Utxo :=
  ⟨⟨hash 1, index⟩, { address, value }⟩

def setup : Setup where
  params := { Params.mainnet with costModels := ⟨none, none, some [0]⟩ }
  config := { evaluates := false }
  select := Selection.largestFirst
  evaluate := fun _ _ => .ok []
  datums := fun _ => none

def run (is : List Intent) : Except BuildError (Work × Tx) := do
  let w ← Intent.performAll setup.params { genesis := .mainnet } is
  let tx ← balance setup w.draft w.pools
  return (w, tx)

theorem run_ok {is : List Intent} {w : Work} {tx : Tx} (h : run is = .ok (w, tx)) :
    w.draft.Reachable ∧ balance setup w.draft w.pools = .ok tx := by
  obtain ⟨_, performed, h⟩ := Except.bind_eq_ok.mp h
  obtain ⟨_, balanced, h⟩ := Except.bind_eq_ok.mp h
  cases h
  exact ⟨⟨w, Work.Reachable.performAll (.start _) performed, rfl⟩, balanced⟩

end Sample

end ConwayTx
