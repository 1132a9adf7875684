import ConwayTx.Proofs.Bytes
import ConwayTx.Text.Base58
import Mathlib.Data.List.TakeWhile

namespace ConwayTx.Base58

variable {bs : Bytes}

theorem digitValue?_digit : ∀ d < 58, digitValue? (digit d) = some d := by decide +kernel

theorem digit_eq_one_iff : ∀ d < 58, digit d = '1' ↔ d = 0 := by decide +kernel

theorem lt_of_digitValue? {c : Char} {d : Nat} (h : digitValue? c = some d) : d < 58 := by
  obtain ⟨short, -⟩ := List.findIdx?_eq_some_iff_getElem.mp h
  exact short

theorem mapM_digit {ds : List Nat} (each : ∀ d ∈ ds, d < 58) :
    (ds.map digit).mapM digitValue? = some ds := by
  induction ds with
  | nil => rfl
  | cons d rest ih =>
    obtain ⟨small, each⟩ := List.forall_mem_cons.mp each
    rw [List.map_cons, List.mapM_cons, digitValue?_digit d small, ih each]
    rfl

theorem digits_of_mapM {cs : List Char} {ds : List Nat} (digits : cs.mapM digitValue? = some ds) :
    ds.length = cs.length ∧ ∀ d ∈ ds, d < 58 := by
  induction cs generalizing ds with
  | nil =>
    obtain rfl := Option.some.inj digits
    simp
  | cons c rest ih =>
    obtain ⟨d, value, more, behind, rfl⟩ : ∃ d, digitValue? c = some d ∧
        ∃ more, rest.mapM digitValue? = some more ∧ d :: more = ds := by
      simpa [List.mapM_cons, Option.bind_eq_some_iff] using digits
    obtain ⟨length, each⟩ := ih behind
    exact ⟨congrArg (· + 1) length, List.forall_mem_cons.mpr ⟨lt_of_digitValue? value, each⟩⟩

theorem opens_of_start {front rest : List Char} {fs ds : List Nat}
    (start : front.mapM digitValue? = some fs)
    (digits : (front ++ rest).mapM digitValue? = some ds) :
    Opens 58 (numberOf 58 fs) rest.length (numberOf 58 ds) := by
  obtain ⟨more, behind, rfl⟩ : ∃ more, rest.mapM digitValue? = some more ∧ fs ++ more = ds := by
    simpa [List.mapM_append, start, Option.bind_eq_some_iff] using digits
  obtain ⟨length, each⟩ := digits_of_mapM behind
  rw [← length]
  exact opens_numberOf (by decide) each

theorem decode?_eq {text : String} {ds : List Nat}
    (digits : text.toList.mapM digitValue? = some ds) :
    decode? text = some ((text.toList.takeWhile (· == '1')).map (fun _ => 0) ++
      Bytes.ofNatMinimal (numberOf 58 ds)) := by
  simp [decode?, digits, numberOf]

theorem exists_digits {text : String} (read : decode? text = some bs) :
    ∃ ds, text.toList.mapM digitValue? = some ds ∧ numberOf 58 ds = Bytes.toNat bs := by
  obtain ⟨ds, digits, _⟩ := Option.bind_eq_some_iff.mp read
  rw [decode?_eq digits] at read
  obtain rfl := Option.some.inj read
  rw [List.map_const', Bytes.toNat_zeros_append, Bytes.toNat_ofNatMinimal]
  exact ⟨ds, digits, rfl⟩

theorem decode?_ne_of_skips {text : String} {front rest : List Char} {ds : List Nat}
    (chars : text.toList = front ++ rest) (start : front.mapM digitValue? = some ds)
    (width : Nat → Nat) (skips : ∀ k ≤ 101,
      Skips 256 0x82 (width k) (numberOf 58 ds * 58 ^ k) ((numberOf 58 ds + 1) * 58 ^ k))
    (short : rest.length ≤ 101) (tail : Bytes) : decode? text ≠ some (0x82 :: tail) := by
  intro read
  obtain ⟨all, digits, value⟩ := exists_digits read
  rw [chars] at digits
  have opened := opens_of_start start digits
  rw [value] at opened
  exact opened.not_of_skips (skips _ short) (by decide) _ (Bytes.opens_toNat [0x82] tail)

def digitsOf (bs : Bytes) : List Nat :=
  (bs.takeWhile (· == 0)).map (fun _ => 0) ++ Bytes.digitsBefore 56 (Bytes.toNat bs) []

theorem toList_encode (bs : Bytes) : (encode bs).toList = (digitsOf bs).map digit := by
  rw [encode, String.toList_ofList, digitsOf, List.map_append, List.map_map]
  rfl

theorem digitsOf_lt (bs : Bytes) : ∀ d ∈ digitsOf bs, d < 58 := by
  refine List.forall_mem_append.mpr ⟨fun d mem => ?_, digitsBefore_lt⟩
  obtain ⟨_, _, rfl⟩ := List.mem_map.mp mem
  decide

theorem mapM_encode (bs : Bytes) : (encode bs).toList.mapM digitValue? = some (digitsOf bs) := by
  rw [toList_encode, mapM_digit (digitsOf_lt bs)]

theorem numberOf_digitsOf (bs : Bytes) : numberOf 58 (digitsOf bs) = Bytes.toNat bs := by
  rw [digitsOf, List.map_const', numberOf_zeros_append]
  exact numberOf_digitsBefore 56 _

theorem takeWhile_encode (bs : Bytes) : (encode bs).toList.takeWhile (· == '1') =
    (bs.takeWhile (· == 0)).map (fun _ => '1') := by
  have stops :
      ((Bytes.digitsBefore 56 (Bytes.toNat bs) []).map digit).takeWhile (· == '1') = [] := by
    have first := head?_digitsBefore 56 (Bytes.toNat bs)
    have small := digitsBefore_lt (k := 56) (n := Bytes.toNat bs)
    cases digits : Bytes.digitsBefore 56 (Bytes.toNat bs) [] with
    | nil => rfl
    | cons d rest =>
      rw [digits] at first small
      have other : digit d ≠ '1' := by
        rw [Ne, digit_eq_one_iff d (small d List.mem_cons_self)]
        simpa using first
      simp [other]
  rw [encode, String.toList_ofList, List.takeWhile_append_of_pos (by simp), stops, List.append_nil]

theorem decode?_encode (bs : Bytes) : decode? (encode bs) = some bs := by
  have zeros : (bs.takeWhile (· == 0)).map (fun _ => (0 : UInt8)) = bs.takeWhile (· == 0) := by
    refine (List.map_congr_left fun b mem => ?_).trans (List.map_id _)
    have zero := List.mem_takeWhile_imp mem
    exact (eq_of_beq zero).symm
  rw [decode?_eq (mapM_encode bs), takeWhile_encode, numberOf_digitsOf, Bytes.ofNatMinimal_toNat,
    List.map_map]
  exact congrArg some ((congrArg (· ++ _) zeros).trans List.takeWhile_append_dropWhile)

theorem encode_eq_of_numberOf (ds : List Nat) (each : ∀ d ∈ ds, d < 58) (first : ds.head? ≠ some 0)
    (wide : bs.head? ≠ some 0) (same : numberOf 58 ds = Bytes.toNat bs) :
    encode bs = String.ofList (ds.map digit) := by
  have none : bs.takeWhile (· == 0) = [] := by
    cases bs with
    | nil => rfl
    | cons b rest => simpa using wide
  rw [encode, none, ← same, digitsBefore_numberOf each first]
  rfl

end ConwayTx.Base58
