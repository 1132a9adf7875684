import ConwayTx.Proofs.Balance.Accepted
import ConwayTx.Proofs.Collateral
import ConwayTx.Proofs.Selection.Order
import Mathlib

namespace ConwayTx

namespace Pools

structure Reordered (pools pools' : Pools) : Prop where
  available : Option.Rel List.Perm pools.available pools'.available
  collateral : Option.Rel List.Perm pools.collateral pools'.collateral

structure Distinct (pools : Pools) : Prop where
  available : ((pools.available.getD []).map Utxo.ref).Nodup
  collateral : ((pools.collateral.getD []).map Utxo.ref).Nodup

theorem distinctFrom_of_nodup {seen : List OutRef} {us : List Utxo}
    (nodup : (us.map Utxo.ref).Nodup) (fresh : ∀ u ∈ us, u.ref ∉ seen) :
    distinctFrom seen us = us := by
  induction us generalizing seen with
  | nil => rfl
  | cons u rest ih =>
    rw [List.map_cons, List.nodup_cons] at nodup
    rw [distinctFrom, if_neg (fresh u List.mem_cons_self), ih nodup.2]
    intro v mem
    rw [List.mem_cons, not_or]
    refine ⟨fun same => nodup.1 (same ▸ List.mem_map_of_mem mem), ?_⟩
    exact fresh v (List.mem_cons_of_mem u mem)

variable {pools pools' : Pools} (h : pools.Reordered pools')
include h

theorem Reordered.collateralRefs_eq : pools.collateralRefs = pools'.collateralRefs := by
  apply OrdSet.ofList_congr
  intro r
  cases pools
  cases pools'
  cases h.collateral with
  | none => rfl
  | some perm => exact (perm.map Utxo.ref).mem_iff

theorem Reordered.candidates (distinct : pools.Distinct) (d : Draft) :
    Option.Rel List.Perm (pools.candidates d) (pools'.candidates d) := by
  have selectable : pools.selectable d = pools'.selectable d := by
    funext u
    rw [Pools.selectable, Pools.selectable, h.collateralRefs_eq]
  rw [Pools.candidates, Pools.candidates, ← selectable]
  have nodup := distinct.available
  generalize pools.selectable d = allowed
  cases pools
  cases pools'
  cases h.available with
  | none => exact .none
  | @some us vs perm =>
    have offered := perm.filter allowed
    have once : ((us.filter allowed).map Utxo.ref).Nodup :=
      nodup.sublist (List.filter_sublist.map Utxo.ref)
    rw [Option.map_some, Option.map_some, distinctFrom_of_nodup once (by simp),
      distinctFrom_of_nodup ((offered.map Utxo.ref).nodup_iff.mp once) (by simp)]
    exact .some offered

end Pools

namespace Collateral

theorem select_reordered {pools pools' : Pools} (distinct : pools.Distinct)
    (h : pools.Reordered pools') (p : Params) (cfg : Config) (d : Draft) (fee : UInt64) :
    select p cfg d pools fee = select p cfg d pools' fee := by
  have nodup := distinct.collateral
  cases pools
  cases pools'
  unfold select
  cases h.collateral with
  | none => rfl
  | @some us vs perm =>
    have same : candidates us = candidates vs := candidates_eq_of_perm nodup perm
    cases d.collateralChangeAddress with
    | none => rfl
    | some address => simp only [same]

end Collateral

namespace Balance

theorem cheapest?_eq_none_iff {us : List Utxo} : cheapest? us = none ↔ us = [] := by
  cases us with
  | nil => simp [cheapest?]
  | cons u rest =>
    unfold cheapest?
    split
    · split <;> simp
    · simp

theorem cheapest?_least {us : List Utxo} {u : Utxo} (h : cheapest? us = some u) :
    ∀ v ∈ us, ¬ Ranked.Precedes (cost v) (cost u) := by
  induction us generalizing u with
  | nil => cases h
  | cons w rest ih =>
    simp only [List.forall_mem_cons]
    unfold cheapest? at h
    split at h
    · rename_i least found
      split at h
      · rename_i less
        cases h
        exact ⟨Ranked.Precedes.asymm less, ih found⟩
      · rename_i notLess
        cases h
        refine ⟨Ranked.Precedes.irrefl _, fun v mem => ?_⟩
        exact Ranked.not_precedes_trans notLess (ih found v mem)
    · rename_i none
      cases h
      simp [cheapest?_eq_none_iff.mp none, Ranked.Precedes.irrefl]

theorem cheapest?_eq_of_perm {us vs : List Utxo} (nodup : (us.map Utxo.ref).Nodup)
    (perm : us.Perm vs) : cheapest? us = cheapest? vs := by
  cases here : cheapest? us with
  | none =>
    obtain rfl := cheapest?_eq_none_iff.mp here
    rw [List.nil_perm.mp perm]
    rfl
  | some u =>
    cases there : cheapest? vs with
    | none =>
      obtain rfl := cheapest?_eq_none_iff.mp there
      rw [List.perm_nil.mp perm] at here
      cases here
    | some v =>
      have hu := cheapest?_mem here
      have hv := perm.mem_iff.mpr (cheapest?_mem there)
      have same := Ranked.eq_of_not_precedes (cheapest?_least there u (perm.mem_iff.mp hu))
        (cheapest?_least here v hv)
      obtain ⟨_, _, ref⟩ : _ ∧ _ ∧ Ranked.rank u.ref = Ranked.rank v.ref := by
        simpa only [cost, List.cons.injEq] using same
      rw [Utxo.eq_of_ref_eq nodup u hu v hv (Ranked.rank_inj ref)]

variable {s : Setup} {d : Draft} {pools pools' : Pools} {plan : Plan}

theorem plan_eq_map (p : Params) {us vs : List Utxo} (here : pools.candidates d = some us)
    (there : pools'.candidates d = some vs) :
    Balance.plan p d pools' =
      (Balance.plan p d pools).map (fun plan => { plan with candidates := vs }) := by
  simp only [Balance.plan, here, there, orNotSet]
  cases d.changeAddress with
  | none => rfl
  | some address =>
    cases d.implicitInput p with
    | error e => rfl
    | ok implicit =>
      cases d.deposits p with
      | error e => rfl
      | ok deposits =>
        simp only [bind, Except.bind]
        cases exactSum _ <;> rfl

section Lockstep

variable {vs : List Utxo} (nodup : (plan.candidates.map Utxo.ref).Nodup)
  (perm : plan.candidates.Perm vs) (largest : s.select = Selection.largestFirst)
  (secured : ∀ fee, Collateral.select s.params s.config d pools fee =
    Collateral.select s.params s.config d pools' fee)

include nodup perm in
theorem fund_eq_of_perm (target : Value) :
    plan.fund Selection.largestFirst target =
      { plan with candidates := vs }.fund Selection.largestFirst target := by
  unfold Plan.fund
  simp only [Selection.largestFirst_eq_of_perm plan.pinned nodup perm target,
    cheapest?_eq_of_perm nodup perm]

variable (vs) in
include secured in
theorem attempt_eq (state : State) (inputs : List Utxo) (change : Option TxOut) (dust : UInt64) :
    attempt s d pools plan state inputs change dust =
      attempt s d pools' { plan with candidates := vs } state inputs change dust := by
  simp only [attempt, prepare, secured]
  rfl

include nodup perm largest secured

theorem round_eq_of_perm (state : State) :
    round s d pools plan state = round s d pools' { plan with candidates := vs } state := by
  simp only [round, largest, fund_eq_of_perm nodup perm, attempt_eq vs secured]
  rfl

theorem rounds_eq_of_perm (left : Nat) (state : State) :
    rounds s d pools plan left state =
      rounds s d pools' { plan with candidates := vs } left state := by
  induction left generalizing state with
  | zero => rfl
  | succ left ih =>
    rw [rounds, rounds, round_eq_of_perm nodup perm largest secured]
    congr 1
    funext outcome
    cases outcome with
    | done tx => rfl
    | again next => exact ih next

end Lockstep

/-- Pools that list the same outputs in different orders, each reference once, lead to the same
transaction or to the same error. -/
theorem balance_reordered (largest : s.select = Selection.largestFirst)
    (distinct : pools.Distinct) (h : pools.Reordered pools') :
    balance s d pools = balance s d pools' := by
  have secured := Collateral.select_reordered distinct h s.params s.config d
  match here : pools.candidates d, there : pools'.candidates d, h.candidates distinct d with
  | none, none, .none =>
    have nothing : Balance.plan s.params d pools = Balance.plan s.params d pools' := by
      simp only [Balance.plan, here, there]
    rw [balance, balance, ← nothing]
    cases planned : Balance.plan s.params d pools with
    | error e => rfl
    | ok plan =>
      have offered := (plan_ok planned).candidates
      rw [here] at offered
      cases offered
  | some us, some vs, .some perm =>
    rw [balance, balance, plan_eq_map s.params here there]
    cases planned : Balance.plan s.params d pools with
    | error e => rfl
    | ok plan =>
      have offered := (plan_ok planned).candidates
      rw [here] at offered
      cases offered
      have nodup := Pools.candidates_nodup here
      exact rounds_eq_of_perm nodup perm largest secured _ _

end Balance

namespace Sample

def tied : Draft where
  changeAddress := some (keyAddress 3)
  outputs := [{ address := keyAddress 2, value := .ofLovelace 2000000 }]

def five (index : UInt16) : Utxo := utxo index (keyAddress 1) (.ofLovelace 5000000)

def lined : Pools := { available := some [five 0, five 1], collateral := some [five 2, five 3] }

def shuffled : Pools :=
  { available := some [five 1, five 0], collateral := some [five 3, five 2] }

theorem lined_distinct : lined.Distinct := ⟨by decide, by decide⟩

theorem lined_reordered : lined.Reordered shuffled :=
  ⟨.some (List.Perm.swap _ _ _), .some (List.Perm.swap _ _ _)⟩

set_option maxRecDepth 20000 in
theorem tied_passes : (balance setup tied lined).satisfies (fun tx =>
    tx.body.inputs.keys.map (fun r => r.index) == [0]) = true := by
  cbv

end Sample

theorem Balance.balance_reordered_tied : Sample.lined.Distinct ∧
    Sample.lined.Reordered Sample.shuffled ∧
    ∃ tx, balance Sample.setup Sample.tied Sample.lined = .ok tx ∧
      balance Sample.setup Sample.tied Sample.shuffled = .ok tx ∧
      tx.body.inputs.keys.map (fun r => r.index) = [0] := by
  obtain ⟨tx, balanced, passes⟩ := Except.satisfies_iff.mp Sample.tied_passes
  have same := balance_reordered (s := Sample.setup) (d := Sample.tied) rfl Sample.lined_distinct
    Sample.lined_reordered
  exact ⟨Sample.lined_distinct, Sample.lined_reordered, tx, balanced, same ▸ balanced,
    beq_iff_eq.mp passes⟩

end ConwayTx
