import ConwayTx.Address.Text
import ConwayTx.Proofs.Address.Bytes
import ConwayTx.Proofs.Text.Bech32

namespace ConwayTx

namespace AddressError

def prefixes : List String := ["addr", "addr_test", "stake", "stake_test"]

theorem prefixes_suitable : ∀ hrp ∈ prefixes, Bech32.isPrefix hrp.toList = true ∧
    hrp.toList.length ≤ 10 ∧ hrp.toList.any Bech32.isUpper = false := by
  decide

theorem exists_encode {hrp : String} {data : Bytes} (known : hrp ∈ prefixes)
    (short : data.length ≤ 59) : ∃ text, Bech32.encode hrp data = .ok text := by
  obtain ⟨valid, brief, _⟩ := prefixes_suitable _ known
  exact Bech32.exists_encode valid brief short

theorem readPrefixed_of_decode {α : Type} {ofBytes : Bytes → Except AddressError α}
    {hrp : α → String} {text found : String} {data : Bytes} {a : α}
    (decoded : Bech32.decode text = .ok (found, data)) (read : ofBytes data = .ok a) :
    readPrefixed ofBytes hrp text =
      if hrp a = found then .ok a else .error (.prefixMismatch found) := by
  rw [readPrefixed, decoded]
  simp only [read]

theorem exists_text {α : Type} {ofBytes : Bytes → Except AddressError α} {hrp : α → String}
    {data : Bytes} {a : α} (known : hrp a ∈ prefixes) (short : data.length ≤ 59)
    (read : ofBytes data = .ok a) :
    ∃ text, ofBech32 (Bech32.encode (hrp a) data) = .ok text ∧
      readPrefixed ofBytes hrp text = .ok a ∧
      ∃ rest, text.toList = (hrp a).toList ++ '1' :: rest := by
  obtain ⟨_, _, lowerCase⟩ := prefixes_suitable _ known
  obtain ⟨text, written⟩ := exists_encode known short
  refine ⟨text, congrArg ofBech32 written, ?_, _, Bech32.toList_of_encode lowerCase written⟩
  rw [readPrefixed_of_decode (Bech32.decode_of_encode lowerCase written) read, if_pos rfl]

end AddressError

namespace ShelleyAddress

theorem length_toBytes_le (a : ShelleyAddress) : a.toBytes.length ≤ 59 := by
  have payment := a.payment.hash.length_bytes
  have delegation : a.delegationBytes.length ≤ 30 := by
    obtain ⟨_, _, d⟩ := a
    cases d with
    | none => exact Nat.zero_le _
    | stake c => exact Nat.le_trans (Nat.le_of_eq c.hash.length_bytes) (by decide)
    | pointer p => exact p.length_toBytes_le
  rw [toBytes, List.length_cons, List.length_append]
  omega

theorem hrp_mem_prefixes (a : ShelleyAddress) : a.hrp ∈ AddressError.prefixes := by
  unfold hrp
  cases a.network <;> decide

end ShelleyAddress

namespace StakeAddress

theorem length_toBytes (a : StakeAddress) : a.toBytes.length = 29 := by
  rw [toBytes, List.length_cons, a.credential.hash.length_bytes]

theorem hrp_mem_prefixes (a : StakeAddress) : a.hrp ∈ AddressError.prefixes := by
  unfold hrp
  cases a.network <;> decide

end StakeAddress

namespace Address

theorem ofText_of_shelley {a : ShelleyAddress} {text : String} {rest : List Char}
    (start : text.toList = a.hrp.toList ++ '1' :: rest) :
    ofText text = (ShelleyAddress.ofText text).map shelley := by
  have here : "addr".toList.isPrefixOf text.toList = true := by
    rw [start, ShelleyAddress.hrp]
    cases a.network <;> rfl
  rw [ofText, if_pos here]

theorem ofText_of_stake {a : StakeAddress} {text : String} {rest : List Char}
    (start : text.toList = a.hrp.toList ++ '1' :: rest) :
    ofText text = (StakeAddress.ofText text).map stake := by
  have other : ¬ "addr".toList.isPrefixOf text.toList = true := by
    rw [start, StakeAddress.hrp]
    cases a.network <;> exact Bool.false_ne_true
  have here : "stake".toList.isPrefixOf text.toList = true := by
    rw [start, StakeAddress.hrp]
    cases a.network <;> rfl
  rw [ofText, if_neg other, if_pos here]

/-- Every address of the two later kinds is what its bytes are read as, and what its text is read
as, and it has a text. -/
theorem ofBytes_and_ofText_of_written :
    (∀ a : ShelleyAddress, ofBytes (shelley a).toBytes = .ok (shelley a) ∧
      ∃ text, (shelley a).toText = .ok text ∧ ofText text = .ok (shelley a)) ∧
    ∀ a : StakeAddress, ofBytes (stake a).toBytes = .ok (stake a) ∧
      ∃ text, (stake a).toText = .ok text ∧ ofText text = .ok (stake a) := by
  constructor
  · intro a
    refine ⟨ofBytes_of_shelley a.ofBytes_toBytes, ?_⟩
    obtain ⟨text, written, read, _, start⟩ :=
      AddressError.exists_text a.hrp_mem_prefixes a.length_toBytes_le a.ofBytes_toBytes
    refine ⟨text, written, ?_⟩
    rw [ofText_of_shelley start, ShelleyAddress.ofText, read]
    rfl
  · intro a
    refine ⟨ofBytes_of_stake a.ofBytes_toBytes, ?_⟩
    have short : a.toBytes.length ≤ 59 := Nat.le_trans (Nat.le_of_eq a.length_toBytes) (by decide)
    obtain ⟨text, written, read, _, start⟩ :=
      AddressError.exists_text a.hrp_mem_prefixes short a.ofBytes_toBytes
    refine ⟨text, written, ?_⟩
    rw [ofText_of_stake start, StakeAddress.ofText, read]
    rfl

end Address

end ConwayTx
