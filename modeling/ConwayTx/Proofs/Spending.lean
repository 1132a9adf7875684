import ConwayTx.Proofs.Draft
import ConwayTx.Proofs.Selection

namespace ConwayTx

namespace Pools

def isNamed (r : OutRef) (u : Utxo) : Bool := u.ref == r && !u.output.address.isScript

def named (pools : Pools) (d : Draft) (r : OutRef) : Option Utxo :=
  match d.inputs.get? r with
  | some pin => some pin.utxo
  | none => (pools.available.getD []).find? (isNamed r)

def spent (pools : Pools) (d : Draft) (tx : Tx) : List Utxo :=
  tx.body.inputs.keys.filterMap (pools.named d)

theorem find?_distinctFrom {seen : List OutRef} {us : List Utxo} {r : OutRef} (h : r ∉ seen) :
    (distinctFrom seen us).find? (·.ref == r) = us.find? (·.ref == r) := by
  induction us generalizing seen with
  | nil => rfl
  | cons u rest ih =>
    unfold distinctFrom
    split
    · rename_i again
      have ne : u.ref ≠ r := fun same => h (same ▸ again)
      rw [ih h, List.find?_cons_of_neg (by simpa using ne)]
    · by_cases same : u.ref = r
      · simp [same]
      · have h : r ∉ u.ref :: seen := by simp [h, Ne.symm same]
        simp [same, ih h]

theorem distinctFrom_fresh {seen : List OutRef} {us : List Utxo} :
    ∀ u ∈ distinctFrom seen us, u ∈ us ∧ u.ref ∉ seen := by
  induction us generalizing seen with
  | nil => simp [distinctFrom]
  | cons v rest ih =>
    intro u mem
    unfold distinctFrom at mem
    split at mem
    · exact (ih u mem).imp (List.mem_cons_of_mem _) id
    · rename_i fresh
      rcases List.mem_cons.mp mem with rfl | mem
      · exact ⟨List.mem_cons_self, fresh⟩
      · have later := ih u mem
        rw [List.mem_cons, not_or] at later
        exact ⟨List.mem_cons_of_mem _ later.1, later.2.2⟩

theorem distinctFrom_nodup (seen : List OutRef) (us : List Utxo) :
    ((distinctFrom seen us).map Utxo.ref).Nodup := by
  induction us generalizing seen with
  | nil => simp [distinctFrom]
  | cons u rest ih =>
    unfold distinctFrom
    split
    · exact ih seen
    · rw [List.map_cons, List.nodup_cons]
      refine ⟨fun mem => ?_, ih _⟩
      obtain ⟨v, mem, same⟩ := List.mem_map.mp mem
      exact (distinctFrom_fresh v mem).2 (same ▸ List.mem_cons_self)

theorem find?_of_nodup {us : List Utxo} (nodup : (us.map Utxo.ref).Nodup) {u : Utxo}
    (mem : u ∈ us) : us.find? (·.ref == u.ref) = some u := by
  induction us with
  | nil => cases mem
  | cons v rest ih =>
    rw [List.map_cons, List.nodup_cons] at nodup
    rcases List.mem_cons.mp mem with rfl | mem
    · simp
    · have ne : v.ref ≠ u.ref := fun same => nodup.1 (same ▸ List.mem_map_of_mem mem)
      rw [List.find?_cons_of_neg (by simpa using ne), ih nodup.2 mem]

section Candidates

variable {pools : Pools} {d : Draft} {us : List Utxo}

theorem candidates_nodup (h : pools.candidates d = some us) : (us.map Utxo.ref).Nodup := by
  obtain ⟨available, _, rfl⟩ := Option.map_eq_some_iff.mp h
  exact distinctFrom_nodup _ _

theorem candidates_selectable (h : pools.candidates d = some us) :
    ∀ u ∈ us, pools.selectable d u = true := by
  intro u mem
  obtain ⟨available, _, rfl⟩ := Option.map_eq_some_iff.mp h
  exact (List.mem_filter.mp (distinctFrom_fresh u mem).1).2

theorem candidates_not_pinned (h : pools.candidates d = some us) :
    ∀ u ∈ us, d.inputs.get? u.ref = none := by
  intro u mem
  have allowed := candidates_selectable h u mem
  simp only [selectable, Bool.and_eq_true, Bool.not_eq_true', OrdMap.contains] at allowed
  simpa using allowed.1.1.1

theorem candidates_apart (h : pools.candidates d = some us) {chosen : List Utxo}
    (offered : chosen.Subperm us) : (d.inputs.keys ++ chosen.map Utxo.ref).Nodup := by
  apply List.Nodup.append d.inputs.keys_nodup
  · obtain ⟨part, same, sublist⟩ := offered
    rw [← (same.map Utxo.ref).nodup_iff]
    exact (candidates_nodup h).sublist (sublist.map Utxo.ref)
  · intro r pinned selected
    obtain ⟨u, mem, rfl⟩ := List.mem_map.mp selected
    have free := candidates_not_pinned h u (offered.subset mem)
    exact OrdMap.get?_eq_none_iff.mp free pinned

theorem named_of_candidate (h : pools.candidates d = some us) :
    ∀ u ∈ us, pools.named d u.ref = some u := by
  intro u mem
  have free := candidates_not_pinned h u mem
  have allowed := candidates_selectable h u mem
  have nodup := candidates_nodup h
  obtain ⟨available, offered, rfl⟩ := Option.map_eq_some_iff.mp h
  have found : (distinctFrom [] (available.filter (pools.selectable d))).find? (·.ref == u.ref) =
      some u := find?_of_nodup nodup mem
  rw [find?_distinctFrom List.not_mem_nil, List.find?_filter] at found
  simp only [named, free, offered, Option.getD_some]
  rw [← found]
  congr 1
  funext v
  -- Apart from the address, what is selectable is a matter of the reference alone.
  by_cases same : v.ref = u.ref
  · simp only [selectable, Bool.and_eq_true] at allowed
    simp [isNamed, selectable, same, allowed]
  · simp [isNamed, same]

end Candidates

end Pools

end ConwayTx
