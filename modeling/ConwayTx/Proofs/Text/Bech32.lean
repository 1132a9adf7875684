import ConwayTx.Text.Bech32
import Mathlib.Algebra.Group.Nat.Defs

namespace ConwayTx.Bech32

/-! ### The residue -/

def picked (b : Bool) (g : UInt32) : UInt32 := if b then g else 0

theorem xor_picked (s g : UInt32) (b : Bool) : (if b then s ^^^ g else s) = s ^^^ picked b g := by
  cases b <;> simp [picked]

theorem picked_xor (b c : Bool) (g : UInt32) : picked (b ^^ c) g = picked b g ^^^ picked c g := by
  cases b <;> cases c <;> simp [picked]

def feedback (state : UInt32) : UInt32 :=
  let top := (state >>> 25).toNat
  picked (top.testBit 0) 0x3b6a57b2 ^^^ picked (top.testBit 1) 0x26508e6d ^^^
    picked (top.testBit 2) 0x1ea119fa ^^^ picked (top.testBit 3) 0x3d4233dd ^^^
    picked (top.testBit 4) 0x2a1462b3

def shifted (state : UInt32) : UInt32 := (state &&& 0x1ffffff) <<< 5

theorem step_eq (state : UInt32) (value : Nat) :
    step state value = shifted state ^^^ UInt32.ofNat value ^^^ feedback state := by
  simp only [step, generators, List.zipIdx_cons, List.zipIdx_nil, List.foldl_cons, List.foldl_nil,
    Nat.reduceAdd, xor_picked, shifted, feedback]
  ac_rfl

theorem feedback_xor (a b : UInt32) : feedback (a ^^^ b) = feedback a ^^^ feedback b := by
  have top : ((a ^^^ b) >>> 25).toNat = (a >>> 25).toNat ^^^ (b >>> 25).toNat := by
    simp [UInt32.toNat_shiftRight, Nat.shiftRight_xor_distrib]
  simp only [feedback, top, Nat.testBit_xor, picked_xor]
  ac_rfl

theorem toNat_shifted (state : UInt32) : (shifted state).toNat = state.toNat % 2 ^ 25 * 2 ^ 5 := by
  have mask : (0x1ffffff : UInt32).toNat = 2 ^ 25 - 1 := rfl
  have five : (5 : UInt32).toNat % 32 = 5 := rfl
  rw [shifted, UInt32.toNat_shiftLeft, UInt32.toNat_and, mask, five, Nat.and_two_pow_sub_one_eq_mod,
    Nat.shiftLeft_eq]
  omega

theorem shifted_xor (a b : UInt32) : shifted (a ^^^ b) = shifted a ^^^ shifted b := by
  apply UInt32.toNat_inj.mp
  simp only [toNat_shifted, UInt32.toNat_xor, Nat.xor_mod_two_pow, ← Nat.shiftLeft_eq,
    Nat.shiftLeft_xor_distrib]

theorem step_xor (a b : UInt32) (value : Nat) :
    step (a ^^^ b) value = step a 0 ^^^ step b value := by
  have zero : UInt32.ofNat 0 = 0 := rfl
  simp only [step_eq, shifted_xor, feedback_xor, zero, UInt32.xor_zero]
  ac_rfl

theorem foldl_step_xor (a b : UInt32) (values : List Nat) :
    values.foldl step (a ^^^ b) =
      (List.replicate values.length 0).foldl step a ^^^ values.foldl step b := by
  induction values generalizing a b with
  | nil => rfl
  | cons v rest ih =>
    simp only [List.length_cons, List.replicate_succ, List.foldl_cons, step_xor, ih]

theorem xor_eq_add {a b : Nat} (h : b < 2 ^ 5) : a * 2 ^ 5 ^^^ b = a * 2 ^ 5 + b := by
  have high : (a * 2 ^ 5 ^^^ b) / 2 ^ 5 = a := by
    rw [Nat.xor_div_two_pow, Nat.div_eq_of_lt h, Nat.xor_zero, Nat.mul_div_cancel _ (by decide)]
  have low : (a * 2 ^ 5 ^^^ b) % 2 ^ 5 = b := by
    rw [Nat.xor_mod_two_pow, Nat.mul_mod_left, Nat.mod_eq_of_lt h, Nat.zero_xor]
  omega

theorem toNat_step {state : UInt32} {value : Nat} (small : state.toNat < 2 ^ 25)
    (symbol : value < 32) : (step state value).toNat = state.toNat * 32 + value := by
  have top : (state >>> 25).toNat = 0 := by
    rw [UInt32.toNat_shiftRight]
    exact Nat.shiftRight_eq_zero _ _ small
  have nothing : feedback state = 0 := by
    rw [feedback, top]
    simp [picked]
  calc
    (step state value).toNat = state.toNat * 2 ^ 5 ^^^ value := by
      rw [step_eq, nothing, UInt32.xor_zero, UInt32.toNat_xor, toNat_shifted, UInt32.toNat_ofNat',
        Nat.mod_eq_of_lt small, Nat.mod_eq_of_lt (by omega)]
    _ = state.toNat * 32 + value := xor_eq_add symbol

theorem toNat_picked_lt (b : Bool) {g : UInt32} (h : g.toNat < 2 ^ 30) :
    (picked b g).toNat < 2 ^ 30 := by
  cases b with
  | false => exact Nat.two_pow_pos 30
  | true => exact h

theorem toNat_step_lt (state : UInt32) {value : Nat} (symbol : value < 32) :
    (step state value).toNat < 2 ^ 30 := by
  have kept : (shifted state).toNat < 2 ^ 30 := by
    rw [toNat_shifted]
    omega
  have word : (UInt32.ofNat value).toNat < 2 ^ 30 := by
    rw [UInt32.toNat_ofNat']
    omega
  simp only [step_eq, feedback, UInt32.toNat_xor]
  repeat' apply Nat.xor_lt_two_pow
  · exact kept
  · exact word
  all_goals exact toNat_picked_lt _ (by decide)

theorem toNat_foldl_step {k : Nat} {values : List Nat} (small : ∀ v ∈ values, v < 32)
    {state : UInt32} (before : state.toNat < 32 ^ k) (room : k + values.length ≤ checksumLength) :
    (values.foldl step state).toNat = values.foldl (fun n v => n * 32 + v) state.toNat := by
  induction values generalizing k state with
  | nil => rfl
  | cons v rest ih =>
    rw [List.forall_mem_cons] at small
    rw [List.length_cons, checksumLength] at room
    have start : state.toNat < 2 ^ 25 :=
      Nat.lt_of_lt_of_le before (Nat.pow_le_pow_right (by decide) (show k ≤ 5 by omega))
    have first := toNat_step start small.1
    have next : (step state v).toNat < 32 ^ (k + 1) := by
      rw [first, Nat.pow_succ]
      omega
    rw [List.foldl_cons, List.foldl_cons, ih small.2 next (by rw [checksumLength]; omega), first]

def groupsOf (n : Nat) : List Nat :=
  (List.range checksumLength).map (fun i => (n >>> (5 * (5 - i))) % 32)

theorem groupsOf_small (n : Nat) : ∀ v ∈ groupsOf n, v < 32 := by
  intro v mem
  obtain ⟨i, _, rfl⟩ := List.mem_map.mp mem
  exact Nat.mod_lt _ (by decide)

theorem length_groupsOf (n : Nat) : (groupsOf n).length = checksumLength := by
  rw [groupsOf, List.length_map, List.length_range]

theorem length_checksum (hrp : List Char) (values : List Nat) :
    (checksum hrp values).length = checksumLength := length_groupsOf _

theorem foldl_groupsOf {n : Nat} (h : n < 2 ^ 30) :
    (groupsOf n).foldl (fun n v => n * 32 + v) 0 = n := by
  simp only [groupsOf, checksumLength, List.range, List.range.loop, List.map_cons, List.map_nil,
    List.foldl_cons, List.foldl_nil, Nat.shiftRight_eq_div_pow]
  omega

theorem foldl_step_groupsOf {r : UInt32} (h : r.toNat < 2 ^ 30) :
    (groupsOf r.toNat).foldl step 0 = r := by
  apply UInt32.toNat_inj.mp
  have start : (0 : UInt32).toNat < 32 ^ 0 := by decide
  have room : 0 + (groupsOf r.toNat).length ≤ checksumLength := by simp [length_groupsOf]
  rw [toNat_foldl_step (groupsOf_small _) start room]
  exact foldl_groupsOf h

theorem residue_checksum (hrp : List Char) (values : List Nat) :
    residue (expand hrp ++ (values ++ checksum hrp values)) = 1 := by
  let blank := residue (expand hrp ++ values ++ List.replicate checksumLength 0)
  have made : checksum hrp values = groupsOf (blank ^^^ 1).toNat := rfl
  have small : (blank ^^^ 1).toNat < 2 ^ 30 := by
    rw [UInt32.toNat_xor]
    refine Nat.xor_lt_two_pow ?_ (by decide)
    change (residue (_ ++ List.replicate 6 0)).toNat < 2 ^ 30
    rw [List.replicate_succ', ← List.append_assoc, residue, List.foldl_append]
    exact toNat_step_lt _ (by decide)
  calc
    residue (expand hrp ++ (values ++ checksum hrp values))
      = (groupsOf (blank ^^^ 1).toNat).foldl step (residue (expand hrp ++ values) ^^^ 0) := by
        rw [UInt32.xor_zero, ← List.append_assoc, residue, List.foldl_append, made]
        rfl
    _ = blank ^^^ (blank ^^^ 1) := by
        rw [foldl_step_xor, foldl_step_groupsOf small, length_groupsOf, residue,
          ← List.foldl_append]
        rfl
    _ = 1 := by rw [← UInt32.xor_assoc, UInt32.xor_self, UInt32.zero_xor]

/-! ### Bits -/

theorem ofBits_concat (bs : List Bool) (b : Bool) :
    ofBits (bs ++ [b]) = ofBits bs * 2 + b.toNat := by
  rw [ofBits, List.foldl_append]
  rfl

theorem ofBits_bits (width n : Nat) : ofBits (bits width n) = n % 2 ^ width := by
  induction width generalizing n with
  | zero => simp [bits, ofBits, Nat.mod_one]
  | succ width ih =>
    have last : (n % 2 == 1).toNat = n % 2 := by
      rcases Nat.mod_two_eq_zero_or_one n with even | odd <;> simp [*]
    rw [bits, ofBits_concat, ih, last, Nat.pow_succ', Nat.mod_mul]
    omega

theorem bits_ofBits (a b c d e : Bool) : bits 5 (ofBits [a, b, c, d, e]) = [a, b, c, d, e] := by
  revert a b c d e
  decide

@[simp] theorem length_bits (width n : Nat) : (bits width n).length = width := by
  induction width generalizing n with
  | zero => rfl
  | succ width ih => simp [bits, ih]

theorem flatMap_groupsOfFive : (bs : List Bool) →
    ∃ k < 5, (groupsOfFive bs).flatMap (bits 5) = bs ++ List.replicate k false
  | [] => ⟨0, by decide, rfl⟩
  | [a] => ⟨4, by decide, bits_ofBits a _ _ _ _⟩
  | [a, b] => ⟨3, by decide, bits_ofBits a b _ _ _⟩
  | [a, b, c] => ⟨2, by decide, bits_ofBits a b c _ _⟩
  | [a, b, c, d] => ⟨1, by decide, bits_ofBits a b c d _⟩
  | a :: b :: c :: d :: e :: rest => by
    obtain ⟨k, few, later⟩ := flatMap_groupsOfFive rest
    refine ⟨k, few, ?_⟩
    rw [groupsOfFive, List.flatMap_cons, bits_ofBits, later]
    rfl

theorem five_small (a b c d e : Bool) : ofBits [a, b, c, d, e] < 32 := by
  revert a b c d e
  decide

theorem groupsOfFive_small : (bs : List Bool) → ∀ v ∈ groupsOfFive bs, v < 32
  | [] => fun _ mem => nomatch mem
  | [a] => List.forall_mem_singleton.mpr (five_small a _ _ _ _)
  | [a, b] => List.forall_mem_singleton.mpr (five_small a b _ _ _)
  | [a, b, c] => List.forall_mem_singleton.mpr (five_small a b c _ _)
  | [a, b, c, d] => List.forall_mem_singleton.mpr (five_small a b c d _)
  | a :: b :: c :: d :: e :: rest =>
    List.forall_mem_cons.mpr ⟨five_small a b c d e, groupsOfFive_small rest⟩

theorem groupsOfEight_flatMap (data : Bytes) {left : List Bool} (few : left.length < 8) :
    groupsOfEight (data.flatMap (fun b => bits 8 b.toNat) ++ left) = data := by
  induction data with
  | nil =>
    rw [List.flatMap_nil, List.nil_append]
    unfold groupsOfEight
    split
    · simp only [List.length_cons] at few
      omega
    · rfl
  | cons b rest ih =>
    have byte : UInt8.ofNat (ofBits (bits 8 b.toNat)) = b := by
      rw [ofBits_bits, Nat.mod_eq_of_lt b.toNat_lt, UInt8.ofNat_toNat]
    have first (more : List Bool) : groupsOfEight (bits 8 b.toNat ++ more) =
        UInt8.ofNat (ofBits (bits 8 b.toNat)) :: groupsOfEight more := rfl
    rw [List.flatMap_cons, List.append_assoc, first, byte, ih]

theorem ofSymbols_toSymbols (data : Bytes) : ofSymbols (toSymbols data) = data := by
  obtain ⟨k, few, same⟩ := flatMap_groupsOfFive (data.flatMap (fun b => bits 8 b.toNat))
  rw [ofSymbols, toSymbols, same]
  exact groupsOfEight_flatMap data (by rw [List.length_replicate]; omega)

theorem length_flatMap_bits {α : Type} (width : Nat) (f : α → Nat) (xs : List α) :
    (xs.flatMap (fun x => bits width (f x))).length = width * xs.length := by
  induction xs with
  | nil => rfl
  | cons x rest ih =>
    rw [List.flatMap_cons, List.length_append, length_bits, ih, List.length_cons, Nat.mul_succ,
      Nat.add_comm]

theorem length_toSymbols_le (data : Bytes) : 5 * (toSymbols data).length < 8 * data.length + 5 := by
  obtain ⟨k, few, same⟩ := flatMap_groupsOfFive (data.flatMap (fun b => bits 8 b.toNat))
  have lengths := congrArg List.length same
  rw [length_flatMap_bits 5 (fun v => v), List.length_append, List.length_replicate,
    length_flatMap_bits 8 UInt8.toNat] at lengths
  rw [toSymbols]
  omega

/-! ### Text -/

theorem symbolValue?_symbol {v : Nat} (h : v < 32) : symbolValue? (symbol v) = some v := by
  revert v
  decide

theorem symbol_ne_separator {v : Nat} (h : v < 32) : symbol v ≠ '1' := by
  revert v
  decide

theorem symbol_not_upper {v : Nat} (h : v < 32) : isUpper (symbol v) = false := by
  revert v
  decide

theorem splitLast_append (front : List Char) {back : List Char} (h : '1' ∉ back) :
    splitLast (front ++ '1' :: back) = some (front, back) := by
  have other : ∀ c ∈ back.reverse, (c != '1') = true := by
    intro c mem
    rw [bne_iff_ne]
    rintro rfl
    exact h (List.mem_reverse.mp mem)
  have turned : (front ++ '1' :: back).reverse = back.reverse ++ '1' :: front.reverse := by simp
  unfold splitLast
  rw [turned, List.takeWhile_append_of_pos other, List.dropWhile_append_of_pos other]
  simp

theorem guard_eq_some {p : Prop} [Decidable p] (h : p) : (guard p : Option Unit) = some () :=
  if_pos h

/-- A text with the right checksum is read, in whatever case its symbols are. -/
theorem decodeChars?_of_checksum {hrp symbols : List Char} {values : List Nat}
    (separate : '1' ∉ symbols)
    (read : symbols.mapM symbolValue? = some (values ++ checksum hrp values))
    (oneCase : mixedCase (hrp ++ '1' :: symbols) = false) (valid : isPrefix hrp = true)
    (short : (hrp ++ '1' :: symbols).length ≤ maxLength) :
    decodeChars? (hrp ++ '1' :: symbols) = some (hrp, ofSymbols values) := by
  have residual : residues.contains (residue (expand hrp ++ (values ++ checksum hrp values))) =
      true := by
    rw [residue_checksum]
    rfl
  have front : (values ++ checksum hrp values).take
      ((values ++ checksum hrp values).length - checksumLength) = values := by
    rw [List.length_append, length_checksum, Nat.add_sub_cancel, List.take_left]
  have enough : checksumLength ≤ (values ++ checksum hrp values).length := by
    rw [List.length_append, length_checksum]
    exact Nat.le_add_left _ _
  have oneCase : (!mixedCase (hrp ++ '1' :: symbols)) = true := by rw [oneCase, Bool.not_false]
  rw [decodeChars?, splitLast_append hrp separate]
  dsimp only [Option.bind_eq_bind, Option.bind_some]
  rw [read]
  dsimp only [Option.bind_some]
  rw [guard_eq_some oneCase, guard_eq_some valid, guard_eq_some short, guard_eq_some enough,
    guard_eq_some residual, front]
  rfl

theorem mapM_symbolValue? {letter : Nat → Char}
    (read : ∀ v < 32, symbolValue? (letter v) = some v) {values : List Nat}
    (small : ∀ v ∈ values, v < 32) : (values.map letter).mapM symbolValue? = some values := by
  induction values with
  | nil => rfl
  | cons v rest ih =>
    rw [List.forall_mem_cons] at small
    rw [List.map_cons, List.mapM_cons, read v small.1, ih small.2]
    rfl

theorem symbols_small (hrp : List Char) (data : Bytes) :
    ∀ v ∈ toSymbols data ++ checksum hrp (toSymbols data), v < 32 :=
  List.forall_mem_append.mpr ⟨groupsOfFive_small _, groupsOf_small _⟩

theorem decodeChars?_of_letters {hrp : List Char} {letter : Nat → Char} {data : Bytes}
    (read : ∀ v < 32, symbolValue? (letter v) = some v) (apart : ∀ v < 32, letter v ≠ '1')
    (valid : isPrefix hrp = true)
    (short : hrp.length + 1 + (toSymbols data).length + checksumLength ≤ maxLength)
    (oneCase : mixedCase
      (hrp ++ '1' :: (toSymbols data ++ checksum hrp (toSymbols data)).map letter) = false) :
    decodeChars? (hrp ++ '1' :: (toSymbols data ++ checksum hrp (toSymbols data)).map letter) =
      some (hrp, data) := by
  have small := symbols_small hrp data
  have separate : '1' ∉ (toSymbols data ++ checksum hrp (toSymbols data)).map letter := by
    intro mem
    obtain ⟨v, there, same⟩ := List.mem_map.mp mem
    exact apart v (small v there) same
  have length : (hrp ++ '1' ::
      (toSymbols data ++ checksum hrp (toSymbols data)).map letter).length ≤ maxLength := by
    simp only [List.length_append, List.length_cons, List.length_map, length_checksum]
    omega
  rw [decodeChars?_of_checksum separate (mapM_symbolValue? read small) oneCase valid length,
    ofSymbols_toSymbols]

theorem encode_eq_ok_iff {hrp text : String} {data : Bytes} : encode hrp data = .ok text ↔
    isPrefix hrp.toList = true ∧
    hrp.toList.length + 1 + (toSymbols data).length + checksumLength ≤ maxLength ∧
    text = String.ofList (hrp.toList.map lower ++
      '1' :: (toSymbols data ++ checksum hrp.toList (toSymbols data)).map symbol) := by
  unfold encode
  by_cases valid : isPrefix hrp.toList = true
  · by_cases short :
      hrp.toList.length + 1 + (toSymbols data).length + checksumLength ≤ maxLength
    · simp [valid, short, Nat.not_lt.mpr short, eq_comm]
    · simp [valid, short, Nat.lt_of_not_le short]
  · simp [valid]

theorem exists_encode {hrp : String} {data : Bytes} (valid : isPrefix hrp.toList = true)
    (brief : hrp.toList.length ≤ 10) (short : data.length ≤ 59) :
    ∃ text, encode hrp data = .ok text := by
  have fits : hrp.toList.length + 1 + (toSymbols data).length + checksumLength ≤ maxLength := by
    have symbols := length_toSymbols_le data
    have sum : checksumLength = 6 := rfl
    have limit : maxLength = 1023 := rfl
    omega
  exact ⟨_, encode_eq_ok_iff.mpr ⟨valid, fits, rfl⟩⟩

theorem lower_of_not_upper {c : Char} (h : isUpper c = false) : lower c = c := by
  unfold lower
  split
  · rename_i upper
    simp [isUpper, upper] at h
  · rfl

/-! ### Upper case -/

theorem symbolValue?_upper : ∀ v < 32, symbolValue? (symbol v).toUpper = some v := by
  decide +kernel

theorem upper_ne_separator : ∀ v < 32, (symbol v).toUpper ≠ '1' := by decide +kernel

theorem symbol_toUpper_not_lower : ∀ v < 32, isLower (symbol v).toUpper = false := by
  decide +kernel

theorem toUpper_printable {c : Char} (printable : 33 ≤ c.toNat ∧ c.toNat ≤ 126) :
    lower c.toUpper = lower c ∧ isLower c.toUpper = false ∧
      33 ≤ c.toUpper.toNat ∧ c.toUpper.toNat ≤ 126 := by
  have each : ∀ n < 127, 33 ≤ n → lower (Char.ofNat n).toUpper = lower (Char.ofNat n) ∧
      isLower (Char.ofNat n).toUpper = false ∧
      33 ≤ (Char.ofNat n).toUpper.toNat ∧ (Char.ofNat n).toUpper.toNat ≤ 126 := by
    decide +kernel
  have this := each c.toNat (Nat.lt_succ_of_le printable.2) printable.1
  rwa [Char.ofNat_toNat] at this

theorem mixedCase_of_not_lower {cs : List Char} (h : ∀ c ∈ cs, isLower c = false) :
    mixedCase cs = false := by
  have none : cs.any isLower = false := by simpa [List.any_eq_false] using h
  rw [mixedCase, none, Bool.and_false]

section Prefix

variable {hrp : List Char} (valid : isPrefix hrp = true)
include valid

theorem printable_of_isPrefix : ∀ c ∈ hrp, 33 ≤ c.toNat ∧ c.toNat ≤ 126 := by
  simp only [isPrefix, Bool.and_eq_true, List.all_eq_true, decide_eq_true_eq] at valid
  exact valid.1.2

theorem expand_toUpper : expand (hrp.map Char.toUpper) = expand hrp := by
  have codes : (hrp.map Char.toUpper).map (fun c => (lower c).toNat) =
      hrp.map (fun c => (lower c).toNat) := by
    rw [List.map_map]
    refine List.map_congr_left fun c mem => ?_
    exact congrArg Char.toNat (toUpper_printable (printable_of_isPrefix valid c mem)).1
  simp only [expand, codes]

theorem toUpper_not_lower : ∀ c ∈ hrp.map Char.toUpper, isLower c = false :=
  List.forall_mem_map.mpr
    (fun c mem => (toUpper_printable (printable_of_isPrefix valid c mem)).2.1)

theorem isPrefix_toUpper : isPrefix (hrp.map Char.toUpper) = true := by
  have printable := printable_of_isPrefix valid
  have oneCase := mixedCase_of_not_lower (toUpper_not_lower valid)
  simp only [isPrefix, Bool.and_eq_true, Bool.not_eq_true', decide_eq_true_eq] at valid
  obtain ⟨⟨sized, _⟩, _⟩ := valid
  simp only [isPrefix, oneCase, Bool.and_eq_true, Bool.not_eq_true', List.all_eq_true,
    decide_eq_true_eq, List.isEmpty_map, List.length_map, List.forall_mem_map]
  exact ⟨⟨sized, fun c mem => (toUpper_printable (printable c mem)).2.2⟩, trivial⟩

end Prefix

section LowerCase

variable {hrp text : String} {data : Bytes} (lowerCase : hrp.toList.any isUpper = false)
include lowerCase

theorem not_upper_of_any : ∀ c ∈ hrp.toList, isUpper c = false := by
  simpa [List.any_eq_false] using lowerCase

theorem toList_of_encode (h : encode hrp data = .ok text) : text.toList = hrp.toList ++
    '1' :: (toSymbols data ++ checksum hrp.toList (toSymbols data)).map symbol := by
  obtain ⟨_, _, rfl⟩ := encode_eq_ok_iff.mp h
  have same : hrp.toList.map lower = hrp.toList :=
    (List.map_congr_left (fun c mem =>
      lower_of_not_upper (not_upper_of_any lowerCase c mem))).trans (List.map_id _)
  rw [String.toList_ofList, same]

theorem decode_of_encode (h : encode hrp data = .ok text) : decode text = .ok (hrp, data) := by
  obtain ⟨valid, short, _⟩ := encode_eq_ok_iff.mp h
  let values := toSymbols data ++ checksum hrp.toList (toSymbols data)
  have noUpper : ∀ c ∈ hrp.toList ++ '1' :: values.map symbol, isUpper c = false := by
    refine List.forall_mem_append.mpr
      ⟨not_upper_of_any lowerCase, List.forall_mem_cons.mpr ⟨rfl, ?_⟩⟩
    exact List.forall_mem_map.mpr (fun v mem => symbol_not_upper (symbols_small _ _ v mem))
  have oneCase : mixedCase (hrp.toList ++ '1' :: values.map symbol) = false := by
    rw [mixedCase, List.any_eq_false.mpr (by simpa using noUpper), Bool.false_and]
  have read := decodeChars?_of_letters (fun _ => symbolValue?_symbol) (fun _ => symbol_ne_separator)
    valid short oneCase
  rw [decode, toList_of_encode lowerCase h, read]
  simp only [String.ofList_toList]

theorem toList_toUpper_of_encode (h : encode hrp data = .ok text) : text.toUpper.toList =
    hrp.toUpper.toList ++ '1' :: (toSymbols data ++
      checksum hrp.toList (toSymbols data)).map (fun v => (symbol v).toUpper) := by
  rw [String.toUpper, String.toUpper, String.toList_map, String.toList_map,
    toList_of_encode lowerCase h, List.map_append, List.map_cons, List.map_map]
  rfl

theorem decode_toUpper_of_encode (h : encode hrp data = .ok text) :
    decode text.toUpper = .ok (hrp.toUpper, data) := by
  have chars := toList_toUpper_of_encode lowerCase h
  obtain ⟨valid, short, _⟩ := encode_eq_ok_iff.mp h
  have front : hrp.toUpper.toList = hrp.toList.map Char.toUpper := String.toList_map
  have same : checksum hrp.toList (toSymbols data) =
      checksum hrp.toUpper.toList (toSymbols data) := by
    rw [front, checksum, checksum, expand_toUpper valid]
  have noLower : ∀ c ∈ text.toUpper.toList, isLower c = false := by
    rw [chars, front]
    refine List.forall_mem_append.mpr ⟨toUpper_not_lower valid, List.forall_mem_cons.mpr ⟨rfl, ?_⟩⟩
    exact List.forall_mem_map.mpr
      (fun v mem => symbol_toUpper_not_lower v (symbols_small _ _ v mem))
  have oneCase := mixedCase_of_not_lower noLower
  rw [chars, same] at oneCase
  have read := decodeChars?_of_letters symbolValue?_upper upper_ne_separator
    (front ▸ isPrefix_toUpper valid) (by rwa [front, List.length_map]) oneCase
  rw [decode, chars, same, read]
  simp only [String.ofList_toList]

end LowerCase

end ConwayTx.Bech32
