/-!
Finite maps whose entries stand in the order of their keys. Keys are ordered by a rank, a list of
numbers that is compared lexicographically; equal ranks mean equal keys, so a map has one entry a
key and is determined by its look-ups.
-/

namespace ConwayTx

universe u v w

class Ranked (α : Type u) where
  rank : α → List Nat
  rank_inj : ∀ {a b : α}, rank a = rank b → a = b

namespace Ranked

variable {α : Type u} [Ranked α]

def Precedes (a b : α) : Prop := rank a < rank b

instance (a b : α) : Decidable (Precedes a b) := inferInstanceAs (Decidable (rank a < rank b))

theorem Precedes.irrefl (a : α) : ¬ Precedes a a := List.lt_irrefl _

theorem Precedes.trans {a b c : α} (h : Precedes a b) (k : Precedes b c) : Precedes a c :=
  List.lt_trans h k

theorem Precedes.asymm {a b : α} (h : Precedes a b) : ¬ Precedes b a := List.lt_asymm h

theorem eq_of_not_precedes {a b : α} (h : ¬ Precedes a b) (k : ¬ Precedes b a) : a = b :=
  rank_inj (List.le_antisymm (List.not_lt.mp k) (List.not_lt.mp h))

def sort (xs : List α) : List α := xs.mergeSort (fun a b => !decide (Precedes b a))

def sortOn {β : Type v} (key : β → α) (xs : List β) : List β :=
  xs.mergeSort (fun a b => !decide (Precedes (key b) (key a)))

end Ranked

open Ranked (Precedes)

structure OrdMap (κ : Type u) (ν : Type v) [Ranked κ] where
  toList : List (κ × ν)
  sorted : toList.Pairwise (fun x y => Precedes x.1 y.1)
  deriving DecidableEq

namespace OrdMap

variable {κ : Type u} {ν : Type v} {μ : Type w} [Ranked κ]

instance : EmptyCollection (OrdMap κ ν) := ⟨⟨[], .nil⟩⟩

instance : Inhabited (OrdMap κ ν) := ⟨∅⟩

def keys (m : OrdMap κ ν) : List κ := m.toList.map (·.1)

def values (m : OrdMap κ ν) : List ν := m.toList.map (·.2)

def size (m : OrdMap κ ν) : Nat := m.toList.length

def isEmpty (m : OrdMap κ ν) : Bool := m.toList.isEmpty

def findIn (k : κ) : List (κ × ν) → Option ν
  | [] => none
  | (k', v) :: rest =>
    if Precedes k k' then none
    else if Precedes k' k then findIn k rest
    else some v

def get? (m : OrdMap κ ν) (k : κ) : Option ν := findIn k m.toList

def contains (m : OrdMap κ ν) (k : κ) : Bool := (m.get? k).isSome

def insertIn (k : κ) (v : ν) : List (κ × ν) → List (κ × ν)
  | [] => [(k, v)]
  | (k', v') :: rest =>
    if Precedes k k' then (k, v) :: (k', v') :: rest
    else if Precedes k' k then (k', v') :: insertIn k v rest
    else (k, v) :: rest

theorem mem_insertIn {k : κ} {v : ν} {x : κ × ν} {entries : List (κ × ν)}
    (h : x ∈ insertIn k v entries) : x.1 = k ∨ x ∈ entries := by
  induction entries with
  | nil => simp_all [insertIn]
  | cons entry rest ih =>
    obtain ⟨k', v'⟩ := entry
    unfold insertIn at h
    split at h
    · rcases List.mem_cons.mp h with rfl | h
      · exact .inl rfl
      · exact .inr h
    · split at h
      · rcases List.mem_cons.mp h with rfl | h
        · exact .inr (by simp)
        · exact (ih h).imp id (List.mem_cons_of_mem _)
      · rcases List.mem_cons.mp h with rfl | h
        · exact .inl rfl
        · exact .inr (List.mem_cons_of_mem _ h)

theorem sorted_insertIn (k : κ) (v : ν) {entries : List (κ × ν)}
    (h : entries.Pairwise (fun x y => Precedes x.1 y.1)) :
    (insertIn k v entries).Pairwise (fun x y => Precedes x.1 y.1) := by
  induction entries with
  | nil => simp [insertIn]
  | cons entry rest ih =>
    obtain ⟨k', v'⟩ := entry
    rw [List.pairwise_cons] at h
    unfold insertIn
    split
    · rename_i before
      refine List.pairwise_cons.mpr ⟨fun x hx => ?_, List.pairwise_cons.mpr h⟩
      rcases List.mem_cons.mp hx with rfl | hx
      · exact before
      · exact before.trans (h.1 x hx)
    · rename_i notBefore
      split
      · rename_i after
        refine List.pairwise_cons.mpr ⟨fun x hx => ?_, ih h.2⟩
        rcases mem_insertIn hx with rfl | hx
        · exact after
        · exact h.1 x hx
      · rename_i notAfter
        obtain rfl := Ranked.eq_of_not_precedes notBefore notAfter
        exact List.pairwise_cons.mpr h

def insert (m : OrdMap κ ν) (k : κ) (v : ν) : OrdMap κ ν :=
  ⟨insertIn k v m.toList, sorted_insertIn k v m.sorted⟩

def erase (m : OrdMap κ ν) (k : κ) : OrdMap κ ν :=
  ⟨m.toList.filter (fun x => decide (Precedes x.1 k) || decide (Precedes k x.1)),
    m.sorted.filter _⟩

/-- Entries in turn, a later one replacing an earlier one at the same key. -/
def ofList (entries : List (κ × ν)) : OrdMap κ ν :=
  entries.foldl (fun m x => m.insert x.1 x.2) ∅

def mapValues (f : κ → ν → μ) (m : OrdMap κ ν) : OrdMap κ μ :=
  ⟨m.toList.map (fun x => (x.1, f x.1 x.2)), List.pairwise_map.mpr m.sorted⟩

def filter (p : κ → ν → Bool) (m : OrdMap κ ν) : OrdMap κ ν :=
  ⟨m.toList.filter (fun x => p x.1 x.2), m.sorted.filter _⟩

def any (p : κ → ν → Bool) (m : OrdMap κ ν) : Bool := m.toList.any (fun x => p x.1 x.2)

def all (p : κ → ν → Bool) (m : OrdMap κ ν) : Bool := m.toList.all (fun x => p x.1 x.2)

def foldl {σ : Type w} (f : σ → κ → ν → σ) (init : σ) (m : OrdMap κ ν) : σ :=
  m.toList.foldl (fun s x => f s x.1 x.2) init

theorem findIn_insertIn (k k' : κ) (v : ν) {entries : List (κ × ν)}
    (h : entries.Pairwise (fun x y => Precedes x.1 y.1)) :
    findIn k' (insertIn k v entries) =
      if ¬ Precedes k k' ∧ ¬ Precedes k' k then some v else findIn k' entries := by
  induction entries with
  | nil =>
    by_cases a : Precedes k k' <;> by_cases b : Precedes k' k <;> simp [insertIn, findIn, a, b]
  | cons entry rest ih =>
    obtain ⟨j, w⟩ := entry
    rw [List.pairwise_cons] at h
    have ih := ih h.2
    unfold insertIn
    split
    · rename_i before
      by_cases a : Precedes k k'
      · simp [findIn, a, a.asymm]
      · by_cases b : Precedes k' k
        · simp [findIn, a, b, b.trans before]
        · simp [findIn, a, b]
    · rename_i notBefore
      split
      · rename_i after
        by_cases a : Precedes k' j
        · simp [findIn, a, a.trans after]
        · simp only [findIn, a, if_false, ih]
          by_cases b : Precedes j k'
          · simp [b]
          · obtain rfl := Ranked.eq_of_not_precedes a b
            simp [b, after]
      · rename_i notAfter
        obtain rfl := Ranked.eq_of_not_precedes notBefore notAfter
        by_cases a : Precedes k k'
        · simp [findIn, a, a.asymm]
        · by_cases b : Precedes k' k
          · simp [findIn, a, b]
          · simp [findIn, a, b]

theorem get?_insert (m : OrdMap κ ν) (k k' : κ) (v : ν) [Decidable (k = k')] :
    (m.insert k v).get? k' = if k = k' then some v else m.get? k' := by
  unfold get? insert
  rw [findIn_insertIn k k' v m.sorted]
  by_cases e : k = k'
  · subst e
    simp [Precedes.irrefl]
  · have : ¬ (¬ Precedes k k' ∧ ¬ Precedes k' k) :=
      fun ⟨a, b⟩ => e (Ranked.eq_of_not_precedes a b)
    simp only [this, e, if_false]

end OrdMap

abbrev OrdSet (κ : Type u) [Ranked κ] := OrdMap κ Unit

namespace OrdSet

variable {κ : Type u} [Ranked κ]

def ofList (ks : List κ) : OrdSet κ := OrdMap.ofList (ks.map (fun k => (k, ())))

def add (s : OrdSet κ) (k : κ) : OrdSet κ := s.insert k ()

def union (s : OrdSet κ) (ks : List κ) : OrdSet κ := ks.foldl add s

end OrdSet

end ConwayTx
