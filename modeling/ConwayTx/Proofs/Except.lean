import Mathlib.Data.List.Forall2

universe u v w

theorem List.Forall₂.exists_of_mem_right {α : Type u} {β : Type v} {R : α → β → Prop}
    {as : List α} {bs : List β} (all : List.Forall₂ R as bs) {b : β} (mem : b ∈ bs) :
    ∃ a ∈ as, R a b := by
  induction all with
  | nil => cases mem
  | cons first _ ih =>
    rcases List.mem_cons.mp mem with rfl | later
    · exact ⟨_, List.mem_cons_self, first⟩
    · obtain ⟨a, there, related⟩ := ih later
      exact ⟨a, List.mem_cons_of_mem _ there, related⟩

namespace Except

variable {ε : Type u} {α β : Type v}

theorem bind_eq_ok {x : Except ε α} {f : α → Except ε β} {b : β} :
    (x >>= f) = .ok b ↔ ∃ a, x = .ok a ∧ f a = .ok b := by
  cases x <;> simp [bind, Except.bind]

theorem map_eq_ok {x : Except ε α} {f : α → β} {b : β} :
    x.map f = .ok b ↔ ∃ a, x = .ok a ∧ f a = b := by
  cases x <;> simp [Except.map]

@[simp] theorem pure_eq_ok {a b : α} : (pure a : Except ε α) = .ok b ↔ a = b := by
  simp [pure, Except.pure]

theorem forall₂_of_mapM_eq_ok {γ : Type w} {f : γ → Except ε α} {xs : List γ} {ys : List α}
    (h : xs.mapM f = .ok ys) : List.Forall₂ (fun x y => f x = .ok y) xs ys := by
  induction xs generalizing ys with
  | nil =>
    cases h
    exact .nil
  | cons x rest ih =>
    rw [List.mapM_cons] at h
    obtain ⟨y, first, h⟩ := bind_eq_ok.mp h
    obtain ⟨others, later, h⟩ := bind_eq_ok.mp h
    obtain rfl := pure_eq_ok.mp h
    exact .cons first (ih later)

theorem exists_of_mem_mapM {γ : Type w} {f : γ → Except ε α} {xs : List γ} {ys : List α}
    (h : xs.mapM f = .ok ys) {y : α} (mem : y ∈ ys) : ∃ x ∈ xs, f x = .ok y :=
  (forall₂_of_mapM_eq_ok h).exists_of_mem_right mem

theorem exists_mem_mapM {γ : Type w} {f : γ → Except ε α} {xs : List γ} {ys : List α}
    (h : xs.mapM f = .ok ys) {x : γ} (mem : x ∈ xs) : ∃ y ∈ ys, f x = .ok y :=
  (forall₂_of_mapM_eq_ok h).flip.exists_of_mem_right mem

theorem eq_map_of_mapM_eq_ok {γ : Type w} {f : γ → Except ε α} {g : γ → α}
    (only : ∀ {x y}, f x = .ok y → y = g x) {xs : List γ} {ys : List α}
    (h : xs.mapM f = .ok ys) : ys = xs.map g := by
  have each := forall₂_of_mapM_eq_ok h
  clear h
  induction each with
  | nil => rfl
  | cons first _ ih => rw [List.map_cons, only first, ih]

theorem exists_bind_eq_ok {x : Except ε α} {f : α → Except ε β} :
    (∃ b, (x >>= f) = .ok b) ↔ ∃ a, x = .ok a ∧ ∃ b, f a = .ok b := by
  simp only [bind_eq_ok]
  exact ⟨fun ⟨b, a, first, later⟩ => ⟨a, first, b, later⟩,
    fun ⟨a, first, b, later⟩ => ⟨b, a, first, later⟩⟩

theorem exists_mapM_eq_ok {γ : Type w} {f : γ → Except ε α} {xs : List γ} :
    (∃ ys, xs.mapM f = .ok ys) ↔ ∀ x ∈ xs, ∃ y, f x = .ok y := by
  induction xs with
  | nil => simp
  | cons x rest ih =>
    rw [List.mapM_cons, List.forall_mem_cons, ← ih, exists_bind_eq_ok]
    simp only [exists_bind_eq_ok]
    constructor
    · rintro ⟨y, first, others, later, _⟩
      exact ⟨⟨y, first⟩, others, later⟩
    · rintro ⟨⟨y, first⟩, others, later⟩
      exact ⟨y, first, others, later, y :: others, rfl⟩

theorem exists_foldlM_eq_ok {γ : Type w} {step : α → γ → Except ε α} {P : γ → Prop}
    (each : ∀ a x, (∃ a', step a x = .ok a') ↔ P x) {xs : List γ} (a : α) :
    (∃ a', xs.foldlM step a = .ok a') ↔ ∀ x ∈ xs, P x := by
  induction xs generalizing a with
  | nil => simp
  | cons x rest ih =>
    rw [List.foldlM_cons, List.forall_mem_cons, exists_bind_eq_ok, ← each a]
    simp only [ih, exists_and_right]

def FailsWith (P : ε → Prop) (x : Except ε α) : Prop := ∀ e, x = .error e → P e

namespace FailsWith

variable {P Q : ε → Prop} {x : Except ε α}

@[simp] theorem ok (P : ε → Prop) (a : α) : FailsWith P (.ok a : Except ε α) :=
  fun _ same => nomatch same

@[simp] theorem pure (P : ε → Prop) (a : α) : FailsWith P (Pure.pure a : Except ε α) := ok P a

@[simp] theorem error_iff {e : ε} : FailsWith P (.error e : Except ε α) ↔ P e :=
  ⟨fun h => h e rfl, fun h _ same => Except.error.inj same ▸ h⟩

theorem error {e : ε} (h : P e) : FailsWith P (.error e : Except ε α) := error_iff.mpr h

theorem mono (h : x.FailsWith P) (weaker : ∀ e, P e → Q e) : x.FailsWith Q :=
  fun e same => weaker e (h e same)

theorem bind {f : α → Except ε β} (first : x.FailsWith P)
    (later : ∀ a, x = .ok a → (f a).FailsWith P) : (x >>= f).FailsWith P := by
  cases x with
  | error e => exact error_iff.mpr (first e rfl)
  | ok a => exact later a rfl

theorem map {f : α → β} (h : x.FailsWith P) : (x.map f).FailsWith P := by
  cases x with
  | error e => exact error_iff.mpr (h e rfl)
  | ok a => exact ok P _

theorem mapM {γ : Type w} {f : γ → Except ε α} (each : ∀ x, (f x).FailsWith P) (xs : List γ) :
    (xs.mapM f).FailsWith P := by
  induction xs with
  | nil => exact ok P _
  | cons x rest ih =>
    rw [List.mapM_cons]
    exact bind (each x) (fun _ _ => bind ih (fun _ _ => ok P _))

theorem foldlM {γ : Type w} {step : α → γ → Except ε α} (each : ∀ a x, (step a x).FailsWith P)
    (xs : List γ) (a : α) : (xs.foldlM step a).FailsWith P := by
  induction xs generalizing a with
  | nil => exact ok P _
  | cons x rest ih =>
    rw [List.foldlM_cons]
    exact bind (each a x) (fun a _ => ih a)

end FailsWith

def satisfies (p : α → Bool) : Except ε α → Bool
  | .ok a => p a
  | .error _ => false

theorem satisfies_iff {x : Except ε α} {p : α → Bool} :
    x.satisfies p = true ↔ ∃ a, x = .ok a ∧ p a = true := by
  cases x <;> simp [satisfies]

end Except
