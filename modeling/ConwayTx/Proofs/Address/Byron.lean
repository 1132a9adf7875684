import ConwayTx.Address.Text
import ConwayTx.Proofs.Address.Bytes
import ConwayTx.Proofs.Text.Base58
/-!
Byron addresses as bytes and as text. Bytes are taken for a Byron address by half of their first
byte, text by all of it, and text only if its start does not send it to a reader of bech32.
-/

namespace ConwayTx.Address

variable {bs payload : Bytes}

theorem ofBytes_eq_byron (read : ofBytes bs = .ok (byron payload)) :
    payload = bs ∧ ∃ header body, bs = header :: body := by
  rcases ofBytes_cases read with ⟨_, ⟨⟩, _⟩ | ⟨same, header, body, opened, _⟩ | ⟨_, ⟨⟩, _⟩
  cases same
  exact ⟨rfl, header, body, opened⟩

theorem ofBytes_of_array {rest : Bytes} : ofBytes (0x82 :: rest) = .ok (byron (0x82 :: rest)) := rfl

def OpensAsBech32 (text : String) : Prop :=
  "addr".toList <+: text.toList ∨ "stake".toList <+: text.toList

instance (text : String) : Decidable (OpensAsBech32 text) := inferInstanceAs (Decidable (_ ∨ _))

theorem ofText_of_not_opensAsBech32 {text : String} (other : ¬ OpensAsBech32 text) :
    ofText text = ofBase58 text := by
  obtain ⟨noAddr, noStake⟩ := not_or.mp other
  rw [ofText, if_neg (by rwa [List.isPrefixOf_iff_prefix]),
    if_neg (by rwa [List.isPrefixOf_iff_prefix])]

theorem ofText_ne_byron {text : String} (routed : OpensAsBech32 text) :
    ofText text ≠ .ok (byron payload) := by
  intro read
  unfold ofText at read
  split_ifs at read with addr stake
  · obtain ⟨_, _, ⟨⟩⟩ := Except.map_eq_ok.mp read
  · obtain ⟨_, _, ⟨⟩⟩ := Except.map_eq_ok.mp read
  · rcases routed with start | start
    · exact addr (List.isPrefixOf_iff_prefix.mpr start)
    · exact stake (List.isPrefixOf_iff_prefix.mpr start)

theorem ofBase58_encode (header : UInt8) (rest : Bytes) :
    ofBase58 (Base58.encode (header :: rest)) =
      if header = 0x82 then .ok (byron (header :: rest)) else .error (.unknownHeader header) := by
  rw [ofBase58, Base58.decode?_encode]
  split_ifs with array
  · subst array
    rfl
  · split <;> simp_all

theorem ofBase58_error {text : String}
    (other : ∀ tail, Base58.decode? text ≠ some (0x82 :: tail)) :
    ∃ e, ofBase58 text = .error e := by
  unfold ofBase58
  split
  · exact ⟨_, rfl⟩
  · exact ⟨_, rfl⟩
  · rename_i read
    exact absurd read (other _)
  · exact ⟨_, rfl⟩

theorem not_start_of_skips {front : List Char} {ds : List Nat}
    (digits : front.mapM Base58.digitValue? = some ds) (width : Nat → Nat)
    (skips : ∀ k < 127,
      Skips 58 (numberOf 58 ds) (width k) (0x82d8 * 256 ^ k) ((0x82d8 + 1) * 256 ^ k))
    (tagged : [0x82, 0xd8] <+: bs) (short : bs.length ≤ 128) :
    ¬ front <+: (Base58.encode bs).toList := by
  rintro ⟨behind, text⟩
  obtain ⟨rest, rfl⟩ := tagged
  have value : Opens 256 0x82d8 rest.length (Bytes.toNat ([0x82, 0xd8] ++ rest)) :=
    Bytes.opens_toNat [0x82, 0xd8] rest
  have all := Base58.mapM_encode ([0x82, 0xd8] ++ rest)
  rw [← text] at all
  have opened := Base58.opens_of_start digits all
  rw [Base58.numberOf_digitsOf] at opened
  simp only [List.length_append, List.length_cons, List.length_nil] at short
  exact value.not_of_skips (skips rest.length (by omega)) (by decide) _ opened

theorem not_opensAsBech32_of_tagged (tagged : [0x82, 0xd8] <+: bs) (short : bs.length ≤ 128) :
    ¬ OpensAsBech32 (Base58.encode bs) := by
  have addr : "addr".toList.mapM Base58.digitValue? = some [33, 36, 36, 49] := by decide +kernel
  have stake : "stake".toList.mapM Base58.digitValue? = some [50, 51, 33, 43, 37] := by
    decide +kernel
  rintro (start | start)
  · exact not_start_of_skips addr (fun k => (127 * k - 28) / 93) (by decide +kernel) tagged short
      start
  · exact not_start_of_skips stake (fun k => (127 * k - 130) / 93) (by decide +kernel) tagged short
      start

/-- Bytes that are taken for a Byron address are what its text is read as just if they open with an
array of two and the text does not open as bech32 text does, as none does of the payloads that
addresses have. Other text of theirs is refused by its first byte. -/
theorem byron_text_reads_back (read : ofBytes bs = .ok (byron payload)) :
    ∃ text, (byron payload).toText = .ok text ∧
      (ofText text = .ok (byron payload) ↔ bs.head? = some 0x82 ∧ ¬ OpensAsBech32 text) ∧
      (¬ OpensAsBech32 text → ∀ header ≠ 0x82, bs.head? = some header →
        ofText text = .error (.unknownHeader header)) ∧
      ([0x82, 0xd8] <+: bs → bs.length ≤ 128 → ofText text = .ok (byron payload)) := by
  obtain ⟨rfl, header, body, rfl⟩ := ofBytes_eq_byron read
  have plain (other : ¬ OpensAsBech32 (Base58.encode (header :: body))) :
      ofText (Base58.encode (header :: body)) =
        if header = 0x82 then .ok (byron (header :: body)) else .error (.unknownHeader header) := by
    rw [ofText_of_not_opensAsBech32 other, ofBase58_encode]
  have readBack : ofText (Base58.encode (header :: body)) = .ok (byron (header :: body)) ↔
      header = 0x82 ∧ ¬ OpensAsBech32 (Base58.encode (header :: body)) := by
    constructor
    · intro same
      have other : ¬ OpensAsBech32 (Base58.encode (header :: body)) := fun routed =>
        ofText_ne_byron routed same
      rw [plain other] at same
      split_ifs at same with array
      exact ⟨array, other⟩
    · rintro ⟨array, other⟩
      rw [plain other, if_pos array]
  refine ⟨_, rfl, ?_, fun other header' refused same => ?_, fun tagged short => ?_⟩
  · rw [readBack, List.head?_cons, Option.some_inj]
  · cases same
    rw [plain other, if_neg refused]
  · have array := (List.cons_prefix_cons.mp tagged).1
    exact readBack.mpr ⟨array.symm, not_opensAsBech32_of_tagged tagged short⟩

def Sample.mainnet : Bytes :=
  [0x82, 0xd8, 0x18, 0x58, 0x21, 0x83, 0x58, 0x1c, 0xba, 0x97, 0x0a, 0xd3, 0x66, 0x54, 0xd8,
    0xdd, 0x8f, 0x74, 0x27, 0x4b, 0x73, 0x34, 0x52, 0xdd, 0xea, 0xb9, 0xa6, 0x2a, 0x39, 0x77,
    0x46, 0xbe, 0x3c, 0x42, 0xcc, 0xdd, 0xa0, 0x00, 0x1a, 0x90, 0x26, 0xda, 0x5b]

def Sample.worded (width : Nat) (front : List Nat) (ones : Nat) : Bytes :=
  Bytes.ofNat width (numberOf 58 (front ++ List.replicate ones 0))

def Sample.likeAddr : Bytes := worded 465 [33, 36, 36, 49] 631

def Sample.likeStake : Bytes := worded 66 [50, 51, 33, 43, 37] 85

theorem Sample.encode_short : Base58.encode [0x80] = "3D" :=
  Base58.encode_eq_of_numberOf [2, 12] (by decide) (by decide) (by decide) (by decide)

theorem Sample.worded_taken {width ones : Nat} {front : List Nat}
    (opened : (worded width front ones).head? = some 0x82) :
    ofBytes (worded width front ones) = .ok (byron (worded width front ones)) := by
  obtain ⟨rest, same⟩ := List.head?_eq_some_iff.mp opened
  rw [same]
  exact ofBytes_of_array

theorem Sample.worded_start {width ones : Nat} {front : List Nat} {start : List Char}
    (chars : start = front.map Base58.digit) (each : ∀ d ∈ front, d < 58)
    (first : (front ++ List.replicate ones 0).head? ≠ some 0)
    (fits : numberOf 58 (front ++ List.replicate ones 0) < Bytes.size width)
    (opened : (worded width front ones).head? = some 0x82) :
    start <+: (Base58.encode (worded width front ones)).toList := by
  have digits : ∀ d ∈ front ++ List.replicate ones 0, d < 58 := by
    refine List.forall_mem_append.mpr ⟨each, fun d mem => ?_⟩
    rw [List.eq_of_mem_replicate mem]
    decide
  have wide : (worded width front ones).head? ≠ some 0 := by
    rw [opened]
    decide
  rw [Base58.encode_eq_of_numberOf _ digits first wide (Bytes.toNat_ofNat fits).symm,
    String.toList_ofList, List.map_append, chars]
  exact List.prefix_append _ _

theorem Sample.opens_likeAddr : OpensAsBech32 (Base58.encode likeAddr) := by
  have chars : "addr".toList = [33, 36, 36, 49].map Base58.digit := by decide +kernel
  exact .inl (worded_start chars (by decide) (by decide) (by decide +kernel) (by decide +kernel))

theorem Sample.opens_likeStake : OpensAsBech32 (Base58.encode likeStake) := by
  have chars : "stake".toList = [50, 51, 33, 43, 37].map Base58.digit := by decide +kernel
  exact .inr (worded_start chars (by decide) (by decide) (by decide +kernel) (by decide +kernel))

theorem byron_samples_read_back :
    (∃ text, (byron Sample.mainnet).toText = .ok text ∧
      ofText text = .ok (byron Sample.mainnet)) ∧
    ofBytes [0x80] = .ok (byron [0x80]) ∧ ¬ OpensAsBech32 "3D" ∧
    ofText "3D" = .error (.unknownHeader 0x80) := by
  have mainnet : ofBytes Sample.mainnet = .ok (byron Sample.mainnet) := rfl
  have short : ofBytes [0x80] = .ok (byron [0x80]) := rfl
  obtain ⟨text, written, _, _, read⟩ := byron_text_reads_back mainnet
  obtain ⟨_, same, _, refused, _⟩ := byron_text_reads_back short
  rw [toText, Sample.encode_short, Except.ok.injEq] at same
  subst same
  have other : ¬ OpensAsBech32 "3D" := by decide +kernel
  exact ⟨⟨text, written, read (by decide) (by decide)⟩, short, other,
    refused other 0x80 (by decide) rfl⟩

theorem byron_text_not_read_back :
    (ofBytes [0x80] = .ok (byron [0x80]) ∧ (byron [0x80]).toText = .ok "3D" ∧
      ofText "3D" ≠ .ok (byron [0x80])) ∧
    (ofBytes Sample.likeAddr = .ok (byron Sample.likeAddr) ∧
      ∃ text, (byron Sample.likeAddr).toText = .ok text ∧
        ofText text ≠ .ok (byron Sample.likeAddr)) ∧
    ofBytes Sample.likeStake = .ok (byron Sample.likeStake) ∧
    ∃ text, (byron Sample.likeStake).toText = .ok text ∧
      ofText text ≠ .ok (byron Sample.likeStake) := by
  refine ⟨⟨rfl, ?_, ?_⟩, ⟨?_, _, rfl, ?_⟩, ?_, _, rfl, ?_⟩
  · rw [toText, Sample.encode_short]
  · rw [ofText_of_not_opensAsBech32 (by decide +kernel), ← Sample.encode_short, ofBase58_encode]
    exact nofun
  · exact Sample.worded_taken (by decide +kernel)
  · exact ofText_ne_byron Sample.opens_likeAddr
  · exact Sample.worded_taken (by decide +kernel)
  · exact ofText_ne_byron Sample.opens_likeStake

end ConwayTx.Address
