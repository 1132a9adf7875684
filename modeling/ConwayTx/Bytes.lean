
namespace ConwayTx

abbrev Bytes := List UInt8

namespace Bytes

def toNat (bs : Bytes) : Nat :=
  bs.foldl (fun n b => n * 256 + b.toNat) 0

/-- The last `width` base-256 digits of `n`, most significant first. -/
def ofNat : (width : Nat) → (n : Nat) → Bytes
  | 0, _ => []
  | width + 1, n => ofNat width (n / 256) ++ [UInt8.ofNat n]

def digitsBefore (k n : Nat) (written : List Nat) : List Nat :=
  if n = 0 then written else digitsBefore k (n / (k + 2)) (n % (k + 2) :: written)
termination_by n
decreasing_by exact Nat.div_lt_self (by omega) (by omega)

def ofNatMinimal (n : Nat) : Bytes := (digitsBefore 254 n []).map UInt8.ofNat

def splitAt? (n : Nat) (bs : Bytes) : Option (Bytes × Bytes) :=
  if n ≤ bs.length then some (bs.take n, bs.drop n) else none

def chunks (k : Nat) : Bytes → List Bytes
  | [] => []
  | b :: rest => (b :: rest.take k) :: chunks k (rest.drop k)
termination_by bs => bs.length
decreasing_by simp only [List.length_drop, List.length_cons]; omega

@[simp] theorem length_ofNat (width n : Nat) : (ofNat width n).length = width := by
  induction width generalizing n with
  | zero => rfl
  | succ width ih => simp [ofNat, ih]

theorem toNat_append (xs : Bytes) (b : UInt8) : toNat (xs ++ [b]) = toNat xs * 256 + b.toNat := by
  simp [toNat]

def size : (width : Nat) → Nat
  | 0 => 1
  | width + 1 => size width * 256

theorem toNat_ofNat {width n : Nat} (h : n < size width) : toNat (ofNat width n) = n := by
  induction width generalizing n with
  | zero =>
    obtain rfl : n = 0 := by simpa [size] using h
    rfl
  | succ width ih =>
    have bound : n / 256 < size width := by
      rw [size] at h
      omega
    rw [ofNat, toNat_append, ih bound]
    simp only [UInt8.toNat_ofNat']
    omega

theorem flatten_chunks (k : Nat) (bs : Bytes) : (chunks k bs).flatten = bs := by
  fun_induction chunks k bs with
  | case1 => rfl
  | case2 b rest ih => rw [List.flatten_cons, ih, List.cons_append, List.take_append_drop]

theorem length_le_of_mem_chunks {k : Nat} {bs piece : Bytes} (mem : piece ∈ chunks k bs) :
    piece.length ≤ k + 1 := by
  fun_induction chunks k bs with
  | case1 => cases mem
  | case2 b rest ih =>
    rcases List.mem_cons.mp mem with rfl | later
    · simp only [List.length_cons, List.length_take]
      omega
    · exact ih later

theorem toNat_digitsBefore (n : Nat) (written : List Nat) :
    toNat ((digitsBefore 254 n written).map UInt8.ofNat) =
      (written.map UInt8.ofNat).foldl (fun n b => n * 256 + b.toNat) n := by
  fun_induction digitsBefore 254 n written with
  | case1 => rfl
  | case2 n written nonzero ih =>
    have digits : n / (254 + 2) * 256 + n % (254 + 2) % 256 = n := by omega
    rw [ih, List.map_cons, List.foldl_cons, UInt8.toNat_ofNat', digits]

theorem toNat_ofNatMinimal (n : Nat) : toNat (ofNatMinimal n) = n :=
  toNat_digitsBefore n []

theorem length_digitsBefore_le {width n : Nat} (written : List Nat) (h : n < size width) :
    (digitsBefore 254 n written).length ≤ width + written.length := by
  induction width generalizing n written with
  | zero =>
    obtain rfl : n = 0 := by simpa [size] using h
    simp [digitsBefore]
  | succ width ih =>
    unfold digitsBefore
    split
    · omega
    · rw [size] at h
      have := ih (n % (254 + 2) :: written) (show n / (254 + 2) < size width by omega)
      rw [List.length_cons] at this
      omega

theorem length_ofNatMinimal_le {width n : Nat} (h : n < size width) :
    (ofNatMinimal n).length ≤ width := by
  rw [ofNatMinimal, List.length_map]
  exact length_digitsBefore_le [] h

end Bytes

end ConwayTx
