import ConwayTx.OrdMap
import Mathlib.Data.List.Induction
import Mathlib.Data.List.Nodup
import Mathlib.Data.List.Perm.Subperm

universe u v w

namespace ConwayTx

namespace Ranked

variable {α : Type u} {β : Type v} [Ranked α]

theorem Precedes.ne {a b : α} (h : Precedes a b) : a ≠ b := by
  rintro rfl
  exact Precedes.irrefl _ h

theorem sortOn_perm (key : β → α) (xs : List β) : (sortOn key xs).Perm xs :=
  List.mergeSort_perm _ _

theorem not_precedes_trans {a b c : α} (h : ¬ Precedes b a) (k : ¬ Precedes c b) :
    ¬ Precedes c a :=
  List.not_lt.mpr (List.le_trans (List.not_lt.mp h) (List.not_lt.mp k))

theorem sortOn_sorted (key : β → α) (xs : List β) :
    (sortOn key xs).Pairwise (fun x y => ¬ Precedes (key y) (key x)) := by
  have sorted : (sortOn key xs).Pairwise (fun x y => !decide (Precedes (key y) (key x))) := by
    apply List.pairwise_mergeSort
    · intro x y z h k
      simp only [Bool.not_eq_true', decide_eq_false_iff_not] at h k ⊢
      exact not_precedes_trans h k
    · intro x y
      by_cases h : Precedes (key y) (key x)
      · simp [h.asymm]
      · simp [h]
  simpa using sorted

theorem mergeSort_eq_sortOn {le : β → β → Bool} {key : β → α}
    (h : ∀ x y, le x y = !decide (Precedes (key y) (key x))) (xs : List β) :
    xs.mergeSort le = sortOn key xs := by
  obtain rfl : le = fun x y => !decide (Precedes (key y) (key x)) := funext₂ h
  rfl

theorem sortOn_eq_of_perm {key : β → α} {xs ys : List β}
    (apart : ∀ x ∈ xs, ∀ y ∈ xs, key x = key y → x = y) (perm : xs.Perm ys) :
    sortOn key xs = sortOn key ys := by
  have perm' : (sortOn key xs).Perm (sortOn key ys) :=
    ((sortOn_perm key xs).trans perm).trans (sortOn_perm key ys).symm
  refine List.Perm.eq_of_pairwise ?_ (sortOn_sorted key xs) (sortOn_sorted key ys) perm'
  intro x y here there h k
  have here := (sortOn_perm key xs).mem_iff.mp here
  have there := (sortOn_perm key xs).mem_iff.mp (perm'.mem_iff.mpr there)
  exact apart x here y there (eq_of_not_precedes k h)

theorem strict_of_sorted {key : β → α} {xs : List β} (nodup : (xs.map key).Nodup)
    (sorted : xs.Pairwise (fun x y => ¬ Precedes (key y) (key x))) :
    (xs.map key).Pairwise Precedes := by
  rw [List.Nodup, List.pairwise_map] at nodup
  rw [List.pairwise_map]
  refine (nodup.and sorted).imp ?_
  rintro x y ⟨distinct, ordered⟩
  by_contra before
  exact distinct (eq_of_not_precedes before ordered)

theorem sortOn_of_sorted {key : β → α} {xs : List β} (h : (xs.map key).Pairwise Precedes) :
    sortOn key xs = xs := by
  apply List.mergeSort_of_pairwise
  refine (List.pairwise_map.mp h).imp ?_
  intro x y before
  simp [before.asymm]

instance : Ranked (List Nat) := ⟨id, id⟩

theorem precedes_cons_iff {m n : Nat} {ms ns : List Nat} :
    Precedes (m :: ms) (n :: ns) ↔ m < n ∨ m = n ∧ Precedes ms ns :=
  List.cons_lt_cons_iff

theorem eq_of_strict {xs ys : List α} (hx : xs.Pairwise Precedes) (hy : ys.Pairwise Precedes)
    (h : ∀ a, a ∈ xs ↔ a ∈ ys) : xs = ys := by
  refine List.Perm.eq_of_pairwise (fun a b _ _ k l => absurd l k.asymm) hx hy ?_
  exact (List.perm_ext_iff_of_nodup (hx.imp Precedes.ne) (hy.imp Precedes.ne)).mpr h

end Ranked

open Ranked (Precedes)

namespace OrdMap

variable {κ : Type u} {ν : Type v} {μ : Type w} [Ranked κ] {m : OrdMap κ ν}

@[simp] theorem length_toList (m : OrdMap κ ν) : m.toList.length = m.size := rfl

@[simp] theorem length_keys (m : OrdMap κ ν) : m.keys.length = m.size := List.length_map _

theorem findIn_eq_some_iff {entries : List (κ × ν)} {k : κ} {x : ν}
    (h : entries.Pairwise (fun x y => Precedes x.1 y.1)) :
    findIn k entries = some x ↔ (k, x) ∈ entries := by
  induction entries with
  | nil => simp [findIn]
  | cons entry rest ih =>
    obtain ⟨j, w⟩ := entry
    rw [List.pairwise_cons] at h
    have later : (k, x) ∈ rest → Precedes j k := fun hx => h.1 _ hx
    rw [List.mem_cons, findIn]
    by_cases before : Precedes k j
    · have ne : k ≠ j := before.ne
      have absent : (k, x) ∉ rest := fun hx => before.asymm (later hx)
      simp [before, ne, absent]
    · by_cases after : Precedes j k
      · have ne : k ≠ j := after.ne.symm
        simp [before, after, ne, ih h.2]
      · obtain rfl := Ranked.eq_of_not_precedes before after
        have absent : (k, x) ∉ rest := fun hx => after (later hx)
        simp [before, absent, eq_comm]

theorem get?_eq_some_iff {k : κ} {x : ν} : m.get? k = some x ↔ (k, x) ∈ m.toList :=
  findIn_eq_some_iff m.sorted

theorem keys_strict (m : OrdMap κ ν) : m.keys.Pairwise Precedes :=
  List.pairwise_map.mpr m.sorted

theorem keys_nodup (m : OrdMap κ ν) : m.keys.Nodup := m.keys_strict.imp Precedes.ne

theorem mem_keys_iff {k : κ} : k ∈ m.keys ↔ ∃ x, m.get? k = some x := by
  simp [keys, get?_eq_some_iff]

theorem get?_eq_none_iff {k : κ} : m.get? k = none ↔ k ∉ m.keys := by
  rw [mem_keys_iff, Option.eq_none_iff_forall_ne_some]
  simp

theorem mem_values_iff {x : ν} : x ∈ m.values ↔ ∃ k, m.get? k = some x := by
  simp [values, get?_eq_some_iff]

@[simp] theorem keys_empty : (∅ : OrdMap κ ν).keys = [] := rfl

@[simp] theorem get?_empty (k : κ) : (∅ : OrdMap κ ν).get? k = none := rfl

@[simp] theorem get?_insert_self (m : OrdMap κ ν) (k : κ) (x : ν) :
    (m.insert k x).get? k = some x := by
  classical
  rw [get?_insert, if_pos rfl]

theorem get?_insert_of_ne (m : OrdMap κ ν) {j k : κ} (x : ν) (h : j ≠ k) :
    (m.insert j x).get? k = m.get? k := by
  classical
  rw [get?_insert, if_neg h]

theorem forall_get?_insert {P : κ → ν → Prop} {j : κ} {x : ν}
    (all : ∀ k y, m.get? k = some y → P k y) (new : P j x) :
    ∀ k y, (m.insert j x).get? k = some y → P k y := by
  intro k y found
  by_cases here : j = k
  · subst here
    rw [get?_insert_self] at found
    exact Option.some.inj found ▸ new
  · rw [get?_insert_of_ne m x here] at found
    exact all k y found

theorem mem_keys_insert {j k : κ} {x : ν} : k ∈ (m.insert j x).keys ↔ k = j ∨ k ∈ m.keys := by
  by_cases h : j = k
  · subst h
    simp [mem_keys_iff]
  · simp [mem_keys_iff, get?_insert_of_ne m x h, Ne.symm h]

@[simp] theorem get?_mapValues (f : κ → ν → μ) (m : OrdMap κ ν) (k : κ) :
    (m.mapValues f).get? k = (m.get? k).map (f k) := by
  ext y
  simp only [get?_eq_some_iff, mapValues, List.mem_map, Prod.mk.injEq, Option.map_eq_some_iff]
  constructor
  · rintro ⟨⟨j, x⟩, mem, rfl, rfl⟩
    exact ⟨x, mem, rfl⟩
  · rintro ⟨x, mem, rfl⟩
    exact ⟨(k, x), mem, rfl, rfl⟩

@[simp] theorem get?_filter (p : κ → ν → Bool) (m : OrdMap κ ν) (k : κ) :
    (m.filter p).get? k = (m.get? k).filter (p k) := by
  ext y
  simp only [get?_eq_some_iff, filter, List.mem_filter, Option.filter_eq_some_iff]

@[simp] theorem keys_mapValues (f : κ → ν → μ) (m : OrdMap κ ν) :
    (m.mapValues f).keys = m.keys := by
  simp [keys, mapValues, Function.comp_def]

/-- Maps are determined by their look-ups. -/
theorem eq_of_get? {m n : OrdMap κ ν} (h : ∀ k, m.get? k = n.get? k) : m = n := by
  have entries : m.toList = n.toList := by
    refine List.Perm.eq_of_pairwise (fun a b _ _ k l => absurd l k.asymm) m.sorted n.sorted ?_
    have apart : ∀ m : OrdMap κ ν, m.toList.Nodup := fun m =>
      m.sorted.imp (fun before same => before.ne (congrArg Prod.fst same))
    rw [List.perm_ext_iff_of_nodup (apart m) (apart n)]
    rintro ⟨k, x⟩
    rw [← get?_eq_some_iff, ← get?_eq_some_iff, h]
  cases m
  cases n
  simpa using entries

@[simp] theorem get?_erase (m : OrdMap κ ν) (j k : κ) [Decidable (j = k)] :
    (m.erase j).get? k = if j = k then none else m.get? k := by
  ext x
  simp only [get?_eq_some_iff, erase, List.mem_filter, Bool.or_eq_true, decide_eq_true_eq]
  by_cases same : j = k
  · subst same
    simp [Precedes.irrefl]
  · have apart : Precedes k j ∨ Precedes j k := by
      by_contra neither
      rw [not_or] at neither
      exact same (Ranked.eq_of_not_precedes neither.2 neither.1)
    simp [same, apart, get?_eq_some_iff]

theorem insert_of_get? {k : κ} {x : ν} (h : m.get? k = some x) : m.insert k x = m := by
  classical
  apply eq_of_get?
  intro j
  rw [get?_insert]
  split
  · rename_i same
    rw [← same, h]
  · rfl

@[simp] theorem insert_insert (m : OrdMap κ ν) (k : κ) (x y : ν) :
    (m.insert k x).insert k y = m.insert k y := by
  classical
  apply eq_of_get?
  intro j
  rw [get?_insert, get?_insert, get?_insert]
  split <;> rfl

@[simp] theorem erase_insert (m : OrdMap κ ν) (k : κ) (x : ν) :
    (m.insert k x).erase k = m.erase k := by
  classical
  apply eq_of_get?
  intro j
  rw [get?_erase, get?_erase, get?_insert]
  split <;> rfl

theorem filterMap_get?_keys (m : OrdMap κ ν) : m.keys.filterMap m.get? = m.values := by
  rw [keys, values, List.filterMap_map]
  have all : ∀ entry ∈ m.toList, (m.get? ∘ Prod.fst) entry = (some ∘ Prod.snd) entry :=
    fun _ mem => get?_eq_some_iff.mpr mem
  rw [List.filterMap_congr all, List.filterMap_eq_map]

theorem map_values_eq_keys {key : ν → κ} (h : ∀ k x, m.get? k = some x → key x = k) :
    m.values.map key = m.keys := by
  rw [values, keys, List.map_map]
  exact List.map_congr_left (fun entry mem => h entry.1 entry.2 (get?_eq_some_iff.mpr mem))

theorem any_iff {p : κ → ν → Bool} : m.any p = true ↔ ∃ k x, m.get? k = some x ∧ p k x = true := by
  simp [any, get?_eq_some_iff]

theorem isEmpty_iff : m.isEmpty = true ↔ ∀ k, m.get? k = none := by
  simp only [get?_eq_none_iff, isEmpty, keys, List.isEmpty_iff]
  constructor
  · intro h k
    simp [h]
  · intro h
    cases entries : m.toList with
    | nil => rfl
    | cons x _ => exact absurd (by simp [entries]) (h x.1)

theorem isEmpty_eq_false_iff : m.isEmpty = false ↔ ∃ k x, m.get? k = some x := by
  rw [← Bool.not_eq_true, isEmpty_iff, not_forall]
  simp only [← ne_eq, Option.ne_none_iff_exists']

theorem mem_keys_ofList {entries : List (κ × ν)} {k : κ} :
    k ∈ (ofList entries).keys ↔ k ∈ entries.map Prod.fst := by
  suffices ∀ m : OrdMap κ ν, k ∈ (entries.foldl (fun m x => m.insert x.1 x.2) m).keys ↔
      k ∈ m.keys ∨ k ∈ entries.map Prod.fst by
    have all := this ∅
    rwa [keys_empty, List.mem_nil_iff, false_or] at all
  induction entries with
  | nil => simp
  | cons entry rest ih =>
    intro m
    rw [List.foldl_cons, ih, mem_keys_insert, List.map_cons, List.mem_cons]
    tauto

theorem get?_ofList_eq_some {entries : List (κ × ν)} {k : κ} {x : ν}
    (h : (ofList entries).get? k = some x) :
    ∃ before after, entries = before ++ (k, x) :: after ∧ k ∉ after.map Prod.fst := by
  induction entries using List.reverseRecOn with
  | nil => cases h
  | append_singleton before entry ih =>
    obtain ⟨j, y⟩ := entry
    have last : ofList (before ++ [(j, y)]) = (ofList before).insert j y := by simp [ofList]
    rw [last] at h
    by_cases same : j = k
    · subst same
      obtain rfl := Option.some.inj ((get?_insert_self _ _ _).symm.trans h)
      exact ⟨before, [], rfl, List.not_mem_nil⟩
    · rw [get?_insert_of_ne _ _ same] at h
      obtain ⟨front, after, rfl, absent⟩ := ih h
      exact ⟨front, after ++ [(j, y)], by simp, by simp [Ne.symm same, absent]⟩

@[simp] theorem ofList_toList (m : OrdMap κ ν) : ofList m.toList = m := by
  apply eq_of_get?
  intro k
  cases found : (ofList m.toList).get? k with
  | none =>
    rw [get?_eq_none_iff, mem_keys_ofList] at found
    exact (get?_eq_none_iff.mpr found).symm
  | some x =>
    obtain ⟨before, after, entries, _⟩ := get?_ofList_eq_some found
    exact (get?_eq_some_iff.mpr (entries ▸ List.mem_append_cons_self)).symm

end OrdMap

namespace OrdSet

variable {κ : Type u} [Ranked κ]

@[simp] theorem mem_keys_ofList {ks : List κ} {k : κ} : k ∈ (ofList ks).keys ↔ k ∈ ks := by
  simp [ofList, OrdMap.mem_keys_ofList]

theorem get?_ofList {ks : List κ} {k : κ} : (ofList ks).get? k = some () ↔ k ∈ ks := by
  rw [← mem_keys_ofList, OrdMap.mem_keys_iff]
  exact ⟨fun found => ⟨(), found⟩, fun ⟨_, found⟩ => found⟩

theorem ofList_congr {ks js : List κ} (h : ∀ k, k ∈ ks ↔ k ∈ js) : ofList ks = ofList js := by
  apply OrdMap.eq_of_get?
  intro k
  ext
  exact get?_ofList.trans ((h k).trans get?_ofList.symm)

theorem keys_ofList_of_strict {ks : List κ} (h : ks.Pairwise Precedes) : (ofList ks).keys = ks :=
  Ranked.eq_of_strict (OrdMap.keys_strict _) h (fun _ => mem_keys_ofList)

theorem size_ofList_le (ks : List κ) : (ofList ks).size ≤ ks.length := by
  have distinct : (ofList ks).keys.Nodup := OrdMap.keys_nodup _
  have among : (ofList ks).keys ⊆ ks := fun _ => mem_keys_ofList.mp
  have length := (distinct.subperm among).length_le
  rwa [OrdMap.keys, List.length_map] at length

@[simp] theorem mem_keys_union {s : OrdSet κ} {ks : List κ} {k : κ} :
    k ∈ (s.union ks).keys ↔ k ∈ s.keys ∨ k ∈ ks := by
  induction ks generalizing s with
  | nil => simp [union]
  | cons j rest ih =>
    rw [union, List.foldl_cons]
    change k ∈ (union (s.add j) rest).keys ↔ _
    rw [ih, add, OrdMap.mem_keys_insert, List.mem_cons]
    tauto

end OrdSet

end ConwayTx
