import ConwayTx.Proofs.Except
import ConwayTx.Text.Decimal

namespace ConwayTx.Decimal

def valueFrom (front : Nat) (digits : List Char) : Nat :=
  digits.foldl (fun n c => n * 10 + (c.toNat - 48)) front

structure Denotes (text : List Char) (n : Nat) : Prop where
  some : text ≠ []
  digits : ∀ c ∈ text, c.isDigit = true
  value : valueFrom 0 text = n

inductive Spells : List Char → Int → Prop
  | plain {digits : List Char} {n : Nat} (h : Denotes digits n) : Spells digits n
  | plus {digits : List Char} {n : Nat} (h : Denotes digits n) : Spells ('+' :: digits) n
  | minus {digits : List Char} {n : Nat} (h : Denotes digits n) : Spells ('-' :: digits) (-n)

theorem digitValue?_eq (c : Char) :
    digitValue? c = if c.isDigit = true then some (c.toNat - 48) else none := by
  simp only [digitValue?, Char.isDigit, Bool.and_eq_true, decide_eq_true_eq]
  rfl

theorem le_valueFrom (front : Nat) (digits : List Char) : front ≤ valueFrom front digits := by
  induction digits generalizing front with
  | nil => exact Nat.le_refl _
  | cons c rest ih =>
    calc
      front ≤ front * 10 + (c.toNat - 48) := by omega
      _ ≤ valueFrom front (c :: rest) := ih _

theorem digitsFrom_eq_ok_iff {limit acc n : Nat} {beyond : Error} {text : List Char}
    (start : acc ≤ limit) : digitsFrom limit beyond acc text = .ok n ↔
      (∀ c ∈ text, c.isDigit = true) ∧ valueFrom acc text = n ∧ n ≤ limit := by
  induction text generalizing acc with
  | nil =>
    simp only [digitsFrom, Except.ok.injEq, List.not_mem_nil, false_implies, implies_true,
      true_and]
    exact ⟨fun same => ⟨same, same ▸ start⟩, And.left⟩
  | cons c rest ih =>
    rw [digitsFrom, digitValue?_eq, List.forall_mem_cons]
    by_cases digit : c.isDigit = true
    · simp only [digit, if_true, true_and]
      split
      · rename_i within
        exact ih within
      · -- The number only grows from here on.
        rename_i exceeds
        have grows : _ ≤ valueFrom acc (c :: rest) :=
          le_valueFrom (acc * 10 + (c.toNat - 48)) rest
        refine iff_of_false nofun ?_
        rintro ⟨_, rfl, le⟩
        exact exceeds (Nat.le_trans grows le)
    · simp [digit]

theorem digitsFrom_zero_eq_ok_iff {limit n : Nat} {beyond : Error} {text : List Char}
    (some : text ≠ []) :
    digitsFrom limit beyond 0 text = .ok n ↔ Denotes text n ∧ n ≤ limit := by
  rw [digitsFrom_eq_ok_iff (Nat.zero_le _)]
  exact ⟨fun ⟨digits, value, le⟩ => ⟨⟨some, digits, value⟩, le⟩,
    fun ⟨h, le⟩ => ⟨h.digits, h.value, le⟩⟩

theorem not_denotes_of_sign {c : Char} {rest : List Char} {n : Nat} (sign : c.isDigit = false) :
    ¬ Denotes (c :: rest) n := by
  intro h
  have := h.digits c List.mem_cons_self
  rw [sign] at this
  cases this

theorem spells_plus_iff {rest : List Char} {z : Int} :
    Spells ('+' :: rest) z ↔ ∃ n : Nat, Denotes rest n ∧ z = n := by
  constructor
  · rintro (h | h)
    · exact absurd h (not_denotes_of_sign rfl)
    · exact ⟨_, h, rfl⟩
  · rintro ⟨n, h, rfl⟩
    exact .plus h

theorem spells_minus_iff {rest : List Char} {z : Int} :
    Spells ('-' :: rest) z ↔ ∃ n : Nat, Denotes rest n ∧ z = -n := by
  constructor
  · rintro (h | _ | h)
    · exact absurd h (not_denotes_of_sign rfl)
    · exact ⟨_, h, rfl⟩
  · rintro ⟨n, h, rfl⟩
    exact .minus h

theorem spells_unsigned_iff {text : List Char} {z : Int} (plus : ∀ rest, text ≠ '+' :: rest)
    (minus : ∀ rest, text ≠ '-' :: rest) :
    Spells text z ↔ ∃ n : Nat, Denotes text n ∧ z = n := by
  constructor
  · rintro (h | h | h)
    · exact ⟨_, h, rfl⟩
    · exact absurd rfl (plus _)
    · exact absurd rfl (minus _)
  · rintro ⟨n, h, rfl⟩
    exact .plain h

theorem ofInt_eq_iff {z : Int} {n : Int64}
    (fits : -(Int64.largest : Int) - 1 ≤ z ∧ z ≤ Int64.largest) :
    Int64.ofInt z = n ↔ n.toInt = z := by
  rw [← Int64.ofInt?_eq_some_iff, Int64.ofInt?, if_pos fits, Option.some.injEq]

theorem signed_eq_ok_iff {limit : Nat} {beyond : Error} {text : List Char} {n : Int64}
    (sign : Int → Int) (some : text ≠ [])
    (fits : ∀ k : Nat, k ≤ limit ↔
      -(Int64.largest : Int) - 1 ≤ sign k ∧ sign k ≤ Int64.largest) :
    (digitsFrom limit beyond 0 text >>= fun k => pure (k : Int)).map
        (fun k => Int64.ofInt (sign k)) = .ok n ↔
      ∃ k : Nat, Denotes text k ∧ n.toInt = sign k := by
  simp only [Except.map_eq_ok, Except.bind_eq_ok, Except.pure_eq_ok,
    digitsFrom_zero_eq_ok_iff some]
  constructor
  · rintro ⟨_, ⟨k, ⟨h, le⟩, rfl⟩, same⟩
    exact ⟨k, h, (ofInt_eq_iff ((fits k).mp le)).mp same⟩
  · rintro ⟨k, h, same⟩
    have range : -(Int64.largest : Int) - 1 ≤ sign k ∧ sign k ≤ Int64.largest := by
      have low := n.le_toInt
      have high := n.toInt_lt
      rw [← same, Int64.largest]
      omega
    exact ⟨k, ⟨k, ⟨h, (fits k).mpr range⟩, rfl⟩, (ofInt_eq_iff range).mpr same⟩

theorem int64_eq_ok_iff {text : String} {n : Int64} :
    int64 text = .ok n ↔ Spells text.toList n.toInt := by
  unfold int64
  split
  case h_1 empty =>
    rw [empty, spells_unsigned_iff (by simp) (by simp)]
    exact iff_of_false nofun fun ⟨_, h, _⟩ => h.some rfl
  case h_2 plus =>
    rw [plus, spells_plus_iff]
    exact iff_of_false nofun fun ⟨_, h, _⟩ => h.some rfl
  case h_3 minus =>
    rw [minus, spells_minus_iff]
    exact iff_of_false nofun fun ⟨_, h, _⟩ => h.some rfl
  case h_4 rest some plus =>
    rw [plus, spells_plus_iff]
    exact signed_eq_ok_iff id some (fun k => by simp only [id]; omega)
  case h_5 rest some minus =>
    rw [minus, spells_minus_iff]
    exact signed_eq_ok_iff Neg.neg some (fun k => by omega)
  case h_6 some _ _ plus minus =>
    rw [spells_unsigned_iff plus minus]
    exact signed_eq_ok_iff id some (fun k => by simp only [id]; omega)

end ConwayTx.Decimal
