
namespace UInt64

def clamp (n : Nat) : UInt64 :=
  if h : n < size then .ofNatLT n h else .ofNatLT (size - 1) (by decide)

def ofNat? (n : Nat) : Option UInt64 :=
  if h : n < size then some (.ofNatLT n h) else none

def checkedAdd (a b : UInt64) : Option UInt64 := ofNat? (a.toNat + b.toNat)

def checkedSub (a b : UInt64) : Option UInt64 :=
  if b ≤ a then some (a - b) else none

def saturatingAdd (a b : UInt64) : UInt64 := clamp (a.toNat + b.toNat)

def saturatingMul (a b : UInt64) : UInt64 := clamp (a.toNat * b.toNat)

def saturatingSub (a b : UInt64) : UInt64 :=
  if b ≤ a then a - b else 0

@[simp] theorem toNat_clamp (n : Nat) : (clamp n).toNat = min n (size - 1) := by
  unfold clamp
  split
  · simp only [UInt64.toNat_ofNatLT]; omega
  · simp only [UInt64.toNat_ofNatLT]; omega

theorem ofNat?_eq_some_iff {n : Nat} {w : UInt64} : ofNat? n = some w ↔ w.toNat = n := by
  unfold ofNat?
  split
  · rename_i h
    constructor
    · rintro ⟨rfl⟩
      simp
    · rintro rfl
      simp
  · have := w.toNat_lt_size
    constructor
    · simp
    · omega

theorem checkedAdd_eq_some_iff {a b w : UInt64} :
    checkedAdd a b = some w ↔ w.toNat = a.toNat + b.toNat :=
  ofNat?_eq_some_iff

theorem exists_checkedAdd {a b : UInt64} (h : a.toNat + b.toNat ≤ size - 1) :
    ∃ w, checkedAdd a b = some w :=
  have fits := Nat.lt_of_le_sub_one (by decide) h
  ⟨.ofNatLT _ fits, dif_pos fits⟩

@[simp] theorem toNat_saturatingAdd (a b : UInt64) :
    (saturatingAdd a b).toNat = min (a.toNat + b.toNat) (size - 1) :=
  toNat_clamp _

@[simp] theorem toNat_saturatingMul (a b : UInt64) :
    (saturatingMul a b).toNat = min (a.toNat * b.toNat) (size - 1) :=
  toNat_clamp _

@[simp] theorem toNat_saturatingSub (a b : UInt64) :
    (saturatingSub a b).toNat = a.toNat - b.toNat := by
  unfold saturatingSub
  split
  · rename_i h
    exact UInt64.toNat_sub_of_le _ _ h
  · rename_i h
    simp only [UInt64.le_iff_toNat_le] at h
    simp only [UInt64.toNat_zero]
    omega

end UInt64

namespace Int64

def largest : Nat := 0x7fffffffffffffff

def ofInt? (n : Int) : Option Int64 :=
  if -(largest : Int) - 1 ≤ n ∧ n ≤ largest then some (.ofInt n) else none

def checkedAdd (a b : Int64) : Option Int64 := ofInt? (a.toInt + b.toInt)

theorem ofInt?_eq_some_iff {n : Int} {w : Int64} : ofInt? n = some w ↔ w.toInt = n := by
  unfold ofInt? largest
  split
  · rename_i h
    constructor
    · rintro ⟨rfl⟩
      exact Int64.toInt_ofInt_of_le (by omega) (by omega)
    · rintro rfl
      simp
  · have low := w.le_toInt
    have high := w.toInt_lt
    constructor
    · simp
    · rintro rfl
      omega

end Int64
