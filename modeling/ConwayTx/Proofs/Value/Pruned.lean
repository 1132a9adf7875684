import ConwayTx.Proofs.Value

namespace ConwayTx

namespace Assets

variable {m n : Assets}

def Pruned (m : Assets) : Prop :=
  ∀ policy names, m.get? policy = some names →
    names.isEmpty = false ∧ ∀ name q, names.get? name = some q → 0 < q

theorem prune_pruned (m : Assets) : m.prune.Pruned := by
  intro policy names found
  simp only [prune, OrdMap.get?_filter, OrdMap.get?_mapValues, Option.filter_eq_some_iff,
    Option.map_eq_some_iff, Bool.not_eq_true'] at found
  obtain ⟨⟨all, _, rfl⟩, named⟩ := found
  refine ⟨named, fun name q held => ?_⟩
  rw [OrdMap.get?_filter, Option.filter_eq_some_iff] at held
  exact of_decide_eq_true held.2

theorem Pruned.get?_bind (h : m.Pruned) (policy : PolicyId) (name : AssetName) :
    (m.get? policy).bind (·.get? name) =
      if 0 < m.quantity policy name then some (m.quantity policy name) else none := by
  unfold quantity
  cases held : (m.get? policy).bind (·.get? name) with
  | none => simp
  | some q =>
    obtain ⟨names, found, held⟩ := Option.bind_eq_some_iff.mp held
    simp [(h policy names found).2 name q held]

theorem Pruned.get?_eq_none_iff (h : m.Pruned) (policy : PolicyId) :
    m.get? policy = none ↔ ∀ name, m.quantity policy name = 0 := by
  constructor
  · intro absent name
    rw [quantity, absent]
    rfl
  · intro zero
    cases found : m.get? policy with
    | none => rfl
    | some names =>
      -- Policies name something, and what they name is there.
      obtain ⟨named, positive⟩ := h policy names found
      obtain ⟨name, q, held⟩ := OrdMap.isEmpty_eq_false_iff.mp named
      have quantity : m.quantity policy name = q := by
        rw [quantity, found, Option.bind_some, held, Option.getD_some]
      have positive := positive name q held
      rw [← quantity, zero name] at positive
      exact absurd positive (by decide)

theorem Pruned.eq_of_quantity (hm : m.Pruned) (hn : n.Pruned)
    (same : ∀ policy name, m.quantity policy name = n.quantity policy name) : m = n := by
  apply OrdMap.eq_of_get?
  intro policy
  cases found : m.get? policy with
  | none =>
    have zero := (hm.get?_eq_none_iff policy).mp found
    exact ((hn.get?_eq_none_iff policy).mpr (fun name => same policy name ▸ zero name)).symm
  | some names =>
    cases found' : n.get? policy with
    | none =>
      have zero := (hn.get?_eq_none_iff policy).mp found'
      have absent := (hm.get?_eq_none_iff policy).mpr
        (fun name => (same policy name).trans (zero name))
      cases found.symm.trans absent
    | some names' =>
      refine congrArg some (OrdMap.eq_of_get? (fun name => ?_))
      have first := hm.get?_bind policy name
      have second := hn.get?_bind policy name
      rw [found, Option.bind_some] at first
      rw [found', Option.bind_some] at second
      rw [first, second, same]

theorem prune_of_pruned (h : m.Pruned) : m.prune = m :=
  m.prune_pruned.eq_of_quantity h m.quantity_prune

theorem prune_eq_self_iff : m.prune = m ↔ m.Pruned :=
  ⟨fun same => same ▸ m.prune_pruned, prune_of_pruned⟩

instance (m : Assets) : Decidable m.Pruned := decidable_of_iff _ prune_eq_self_iff

end Assets

namespace Value

theorem eq_of_amount {v w : Value} (hv : v.assets.Pruned) (hw : w.assets.Pruned)
    (same : ∀ c, v.amount c = w.amount c) : v = w := by
  have lovelace : v.lovelace = w.lovelace := UInt64.toNat_inj.mp (same .lovelace)
  have assets : v.assets = w.assets := by
    apply hv.eq_of_quantity hw
    intro policy name
    exact UInt64.toNat_inj.mp (same (.asset ⟨policy, name⟩))
  cases v
  cases w
  simp_all

@[simp] theorem amount_prune (v : Value) (c : Component) : v.prune.amount c = v.amount c := by
  cases c with
  | lovelace => rfl
  | asset id => exact congrArg UInt64.toNat (v.assets.quantity_prune id.policy id.name)

theorem add_pruned (v w : Value) : (v + w).assets.Pruned := Assets.prune_pruned _

theorem saturatingSub_pruned (v w : Value) : (v.saturatingSub w).assets.Pruned :=
  Assets.prune_pruned _

theorem checkedSub_pruned {v w u : Value} (h : v.checkedSub w = some u) :
    u.assets.Pruned := by
  unfold checkedSub at h
  split at h
  · obtain rfl := Option.some.inj h
    exact v.saturatingSub_pruned w
  · cases h

theorem sum_pruned (vs : List Value) : (sum vs).assets.Pruned := by
  rcases List.eq_nil_or_concat' vs with rfl | ⟨before, last, rfl⟩
  · intro policy names found
    cases found
  · rw [sum, List.foldl_append]
    exact add_pruned _ last

theorem sum_eq_of_perm {vs ws : List Value} (perm : vs.Perm ws) : sum vs = sum ws := by
  refine eq_of_amount (sum_pruned vs) (sum_pruned ws) fun c => ?_
  rw [amount_sum, amount_sum, (perm.map (amount · c)).sum_nat]

end Value

end ConwayTx
