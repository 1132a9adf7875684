import ConwayTx.Anchor
import ConwayTx.Proofs.Address.Byron
import ConwayTx.Proofs.Address.Text

namespace ConwayTx

/-- Text with the payload of `x` is read as `x` if its prefix is written as `hrp` is. So the text
of `x` is, and its upper case is refused, although it has the payload and the prefix of `x`. -/
structure OnlyLowerCase {α ε : Type} (read : String → Except ε α) (x : α) (hrp : String)
    (data : Bytes) (e : ε) (text : String) : Prop where
  reads_iff : ∀ other found, Bech32.decode other = .ok (found, data) →
    (read other = .ok x ↔ found = hrp)
  reads : read text = .ok x
  decodes : Bech32.decode text.toUpper = .ok (hrp.toUpper, data)
  refuses : read text.toUpper = .error e

theorem onlyLowerCase_of_encode {α ε : Type} {read : String → Except ε α} {x : α} {e : ε}
    {hrp text : String} {data : Bytes} (lowerCase : hrp.toList.any Bech32.isUpper = false)
    (written : Bech32.encode hrp data = .ok text)
    (reads_iff : ∀ other found, Bech32.decode other = .ok (found, data) →
      (read other = .ok x ↔ found = hrp))
    (refuses : ∀ other, Bech32.decode other = .ok (hrp.toUpper, data) → read other = .error e) :
    OnlyLowerCase read x hrp data e text where
  reads_iff := reads_iff
  reads := (reads_iff text hrp (Bech32.decode_of_encode lowerCase written)).mpr rfl
  decodes := Bech32.decode_toUpper_of_encode lowerCase written
  refuses := refuses _ (Bech32.decode_toUpper_of_encode lowerCase written)

namespace AddressError

theorem toUpper_ne : ∀ hrp ∈ prefixes, hrp ≠ hrp.toUpper := by
  decide +kernel

theorem onlyLowerCase {α : Type} {ofBytes : Bytes → Except AddressError α} {hrp : α → String}
    {data : Bytes} {a : α} {text : String} (known : hrp a ∈ prefixes) (read : ofBytes data = .ok a)
    (written : Bech32.encode (hrp a) data = .ok text) :
    OnlyLowerCase (readPrefixed ofBytes hrp) a (hrp a) data (.prefixMismatch (hrp a).toUpper)
      text := by
  obtain ⟨_, _, lowerCase⟩ := prefixes_suitable _ known
  refine onlyLowerCase_of_encode lowerCase written (fun other found decoded => ?_)
    fun other decoded => ?_
  · rw [readPrefixed_of_decode decoded read]
    split_ifs with same
    · exact iff_of_true rfl same.symm
    · exact iff_of_false nofun (Ne.symm same)
  · rw [readPrefixed_of_decode decoded read, if_neg (toUpper_ne _ known)]

end AddressError

namespace PoolId

theorem ofText_of_decode {p : PoolId} {text found : String}
    (decoded : Bech32.decode text = .ok (found, p.bytes)) :
    ofText text = if found = "pool" then .ok p else .error (.wrongPrefix "pool" found) := by
  rw [ofText, Bech32.decodeExpecting, decoded]
  by_cases same : found = "pool"
  · simp [same, p.ofBytes?_bytes]
  · simp [same]

theorem exists_onlyLowerCase (p : PoolId) : ∃ text, toText p = .ok text ∧
    OnlyLowerCase ofText p "pool" p.bytes (.wrongPrefix "pool" "POOL") text := by
  have valid : Bech32.isPrefix "pool".toList = true := by decide
  have short : p.bytes.length ≤ 59 := Nat.le_trans (Nat.le_of_eq p.length_bytes) (by decide)
  obtain ⟨text, written⟩ := Bech32.exists_encode valid (by decide) short
  have upper : "pool".toUpper = "POOL" := by decide +kernel
  refine ⟨text, written, onlyLowerCase_of_encode (by decide) written
    (fun other found decoded => ?_) fun other decoded => ?_⟩
  · rw [ofText_of_decode decoded]
    split_ifs with same
    · exact iff_of_true rfl same
    · exact iff_of_false nofun same
  · rw [ofText_of_decode decoded, upper]
    rfl

end PoolId

namespace DRep

def payload (c : Credential) : Bytes :=
  (if c.isScript then scriptHeader else keyHeader) :: c.hash.bytes

theorem length_payload (c : Credential) : (payload c).length = 29 := by
  rw [payload, List.length_cons, c.hash.length_bytes]

theorem credentialOfText_of_decode {c : Credential} {text found : String}
    (decoded : Bech32.decode text = .ok (found, payload c)) : credentialOfText text =
      if found = "drep" then .ok c
      else if found = "drep_script" then .error (.badLength 29)
      else .error (.wrongPrefix "drep" found) := by
  have hash : Hash.ofBytes? ((payload c).drop 1) = some c.hash := c.hash.ofBytes?_bytes
  have long : (Hash.ofBytes? (payload c) : Option (Hash 28)) = none :=
    dif_neg (by rw [length_payload]; decide)
  rw [credentialOfText, decoded]
  dsimp only
  by_cases same : found = "drep"
  · rw [if_pos ⟨same, length_payload c⟩, if_pos same, hash]
    cases c <;> rfl
  · simp [same, long, length_payload]

theorem exists_onlyLowerCase (c : Credential) : ∃ text, textOfCredential c = .ok text ∧
    OnlyLowerCase credentialOfText c "drep" (payload c) (.wrongPrefix "drep" "DREP") text := by
  have valid : Bech32.isPrefix "drep".toList = true := by decide
  have short : (payload c).length ≤ 59 := Nat.le_trans (Nat.le_of_eq (length_payload c)) (by decide)
  obtain ⟨text, written⟩ := Bech32.exists_encode valid (by decide) short
  have upper : "drep".toUpper = "DREP" := by decide +kernel
  refine ⟨text, written, onlyLowerCase_of_encode (by decide) written
    (fun other found decoded => ?_) fun other decoded => ?_⟩
  · rw [credentialOfText_of_decode decoded]
    split_ifs with same
    · exact iff_of_true rfl same
    all_goals exact iff_of_false nofun same
  · rw [credentialOfText_of_decode decoded, upper]
    rfl

end DRep

namespace Address

theorem not_opensAsBech32_of_upper {text : String} {rest : List Char}
    (chars : text.toList = 'A' :: rest) : ¬ OpensAsBech32 text := by
  unfold OpensAsBech32
  rw [chars]
  rintro (start | start)
  · exact absurd (List.cons_prefix_cons.mp start).1 (by decide)
  · exact absurd (List.cons_prefix_cons.mp start).1 (by decide)

theorem ofText_upper_mainnet {text : String} {rest : List Char}
    (chars : text.toList = "ADDR".toList ++ '1' :: rest) (short : rest.length ≤ 101) :
    ∃ e, ofText text = .error e := by
  rw [ofText_of_not_opensAsBech32 (not_opensAsBech32_of_upper chars)]
  have start : "ADDR1".toList.mapM Base58.digitValue? = some [9, 12, 12, 24, 0] := by
    decide +kernel
  have opened : text.toList = "ADDR1".toList ++ rest := chars
  exact ofBase58_error (Base58.decode?_ne_of_skips opened start (fun k => (41 * k + 193) / 56)
    (by decide +kernel) short)

theorem ofText_upper_testnet {text : String} {rest : List Char}
    (chars : text.toList = "ADDR_TEST".toList ++ '1' :: rest) : ∃ e, ofText text = .error e := by
  rw [ofText_of_not_opensAsBech32 (not_opensAsBech32_of_upper chars)]
  have none : "ADDR_TEST".toList.mapM Base58.digitValue? = .none := by decide +kernel
  refine ofBase58_error fun tail read => ?_
  obtain ⟨all, digits, _⟩ := Base58.exists_digits read
  rw [chars, List.mapM_append, none] at digits
  cases digits

theorem ofText_toUpper_error {a : ShelleyAddress} {text : String}
    (written : Bech32.encode a.hrp a.toBytes = .ok text) : ∃ e, ofText text.toUpper = .error e := by
  obtain ⟨_, _, lowerCase⟩ := AddressError.prefixes_suitable _ a.hrp_mem_prefixes
  have chars := Bech32.toList_toUpper_of_encode lowerCase written
  have mainnet : "addr".toUpper = "ADDR" := by decide +kernel
  have testnet : "addr_test".toUpper = "ADDR_TEST" := by decide +kernel
  rw [ShelleyAddress.hrp] at chars
  cases network : a.network with
  | mainnet =>
    rw [network, mainnet] at chars
    refine ofText_upper_mainnet chars ?_
    have symbols := Bech32.length_toSymbols_le a.toBytes
    have short := a.length_toBytes_le
    rw [List.length_map, List.length_append, Bech32.length_checksum, Bech32.checksumLength]
    omega
  | testnet =>
    rw [network, testnet] at chars
    exact ofText_upper_testnet chars

end Address

/-- All addresses and ids of these kinds have a text that is read as them, and other text with their
payload is read as them if its prefix is in lower case. In upper case the text is refused for its
prefix; that of an address of the later era is also refused by the reader of all addresses. -/
theorem read_in_lower_case_only (a : ShelleyAddress) (account : StakeAddress) (pool : PoolId)
    (drep : Credential) :
    (∃ text, a.toText = .ok text ∧
      OnlyLowerCase ShelleyAddress.ofText a a.hrp a.toBytes (.prefixMismatch a.hrp.toUpper) text ∧
      Address.ofText text = .ok (.shelley a) ∧ ∃ e, Address.ofText text.toUpper = .error e) ∧
    (∃ text, account.toText = .ok text ∧
      OnlyLowerCase StakeAddress.ofText account account.hrp account.toBytes
        (.prefixMismatch account.hrp.toUpper) text) ∧
    (∃ text, PoolId.toText pool = .ok text ∧
      OnlyLowerCase PoolId.ofText pool "pool" pool.bytes (.wrongPrefix "pool" "POOL") text) ∧
    ∃ text, DRep.textOfCredential drep = .ok text ∧
      OnlyLowerCase DRep.credentialOfText drep "drep" (DRep.payload drep)
        (.wrongPrefix "drep" "DREP") text := by
  refine ⟨?shelley, ?stake, PoolId.exists_onlyLowerCase pool, DRep.exists_onlyLowerCase drep⟩
  case shelley =>
    have known := a.hrp_mem_prefixes
    obtain ⟨_, _, lowerCase⟩ := AddressError.prefixes_suitable _ known
    obtain ⟨text, written⟩ := AddressError.exists_encode known a.length_toBytes_le
    have only := AddressError.onlyLowerCase known a.ofBytes_toBytes written
    refine ⟨text, congrArg AddressError.ofBech32 written, only, ?_,
      Address.ofText_toUpper_error written⟩
    have start := Bech32.toList_of_encode lowerCase written
    rw [Address.ofText_of_shelley start, ShelleyAddress.ofText, only.reads]
    rfl
  case stake =>
    have known := account.hrp_mem_prefixes
    have short : account.toBytes.length ≤ 59 :=
      Nat.le_trans (Nat.le_of_eq account.length_toBytes) (by decide)
    obtain ⟨text, written⟩ := AddressError.exists_encode known short
    exact ⟨text, congrArg AddressError.ofBech32 written,
      AddressError.onlyLowerCase known account.ofBytes_toBytes written⟩

end ConwayTx
