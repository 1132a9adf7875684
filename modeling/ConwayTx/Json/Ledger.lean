import ConwayTx.Json.Codec
import ConwayTx.Certificate
import ConwayTx.Governance
import ConwayTx.Redeemer
import ConwayTx.Slots
import ConwayTx.Utxo

namespace ConwayTx

open Json (record? variant? variant plain)

instance : ToJson Network where
  toJson
    | .testnet => .str "Testnet"
    | .mainnet => .str "Mainnet"

instance : FromJson Network where
  fromJson? j := do
    match ← variant? j with
    | ("Testnet", c) => plain .testnet c
    | ("Mainnet", c) => plain .mainnet c
    | _ => none

instance : ToJson Credential where
  toJson
    | .key h => variant "AddrKeyHash" (toJson h)
    | .script h => variant "ScriptHash" (toJson h)

instance : FromJson Credential where
  fromJson? j := do
    match ← variant? j with
    | ("AddrKeyHash", c) => (fromJson? c).map .key
    | ("ScriptHash", c) => (fromJson? c).map .script
    | _ => none

instance : ToJson StakeAddress where
  toJson a := .obj [("network", toJson a.network), ("credential", toJson a.credential)]

instance : FromJson StakeAddress where
  fromJson? j := do
    let r ← record? ["network", "credential"] j
    return ⟨← r.required "network", ← r.required "credential"⟩

instance : ToJson Pointer where
  toJson p :=
    .obj [("slot", toJson p.slot), ("tx_index", toJson p.txIndex),
      ("cert_index", toJson p.certIndex)]

instance : FromJson Pointer where
  fromJson? j := do
    let r ← record? ["slot", "tx_index", "cert_index"] j
    return ⟨← r.required "slot", ← r.required "tx_index", ← r.required "cert_index"⟩

def Credential.paymentJson : Credential → Json
  | .key h => variant "PaymentKeyHash" (toJson h)
  | .script h => variant "ScriptHash" (toJson h)

def Credential.ofPaymentJson? (j : Json) : Option Credential := do
  match ← variant? j with
  | ("PaymentKeyHash", c) => (fromJson? c).map .key
  | ("ScriptHash", c) => (fromJson? c).map .script
  | _ => none

instance : ToJson Delegation where
  toJson
    | .none => .str "None"
    | .stake (.key h) => variant "StakeKeyHash" (toJson h)
    | .stake (.script h) => variant "ScriptHash" (toJson h)
    | .pointer p => variant "Pointer" (toJson p)

instance : FromJson Delegation where
  fromJson? j := do
    match ← variant? j with
    | ("None", c) => plain .none c
    | ("StakeKeyHash", c) => (fromJson? c).map (fun h => .stake (.key h))
    | ("ScriptHash", c) => (fromJson? c).map (fun h => .stake (.script h))
    | ("Pointer", c) => (fromJson? c).map .pointer
    | _ => none

instance : ToJson ShelleyAddress where
  toJson a :=
    .obj [("network", toJson a.network), ("payment", a.payment.paymentJson),
      ("delegation", toJson a.delegation)]

instance : FromJson ShelleyAddress where
  fromJson? j := do
    let r ← record? ["network", "payment", "delegation"] j
    let payment ← (r.find? "payment").bind Credential.ofPaymentJson?
    return ⟨← r.required "network", payment, ← r.required "delegation"⟩

instance : ToJson Address where
  toJson
    | .none => .str "None"
    | .byron payload => variant "Byron" (.obj [("payload", .str (Hex.encode payload))])
    | .shelley a => variant "Shelley" (toJson a)
    | .stake a => variant "Stake" (toJson a)

def Json.bytes? (j : Json) : Option Bytes := j.str?.bind (fun s => (Hex.decode s).toOption)

instance : FromJson Address where
  fromJson? j := do
    match ← variant? j with
    | ("None", c) => plain .none c
    | ("Byron", c) =>
      let r ← record? ["payload"] c
      ((r.find? "payload").bind Json.bytes?).map .byron
    | ("Shelley", c) => (fromJson? c).map .shelley
    | ("Stake", c) => (fromJson? c).map .stake
    | _ => none

instance : ToJson OutRef where
  toJson r := .obj [("tx_hash", toJson r.txHash), ("output_index", toJson r.index)]

instance : FromJson OutRef where
  fromJson? j := do
    let r ← record? ["tx_hash", "output_index"] j
    return ⟨← r.required "tx_hash", ← r.required "output_index"⟩

instance : ToJson AssetName := ⟨fun n => .str n.toHex⟩

instance : FromJson AssetName where
  fromJson? j := j.str?.bind (fun s => (AssetName.ofHex s).toOption)

instance : NamedKey AssetName := ⟨AssetName.toHex, fun s => (AssetName.ofHex s).toOption⟩

instance : ToJson Value where
  toJson v :=
    .obj (("lovelace", toJson v.lovelace) ::
      (if v.assets.isEmpty then [] else [("assets", toJson v.assets)]))

instance : FromJson Value where
  fromJson? j := do
    let r ← record? ["lovelace", "assets"] j
    return ⟨← r.required "lovelace", ← r.withDefault "assets" ∅⟩

mutual

def NativeScript.toJsonValue : NativeScript → Json
  | .pubkey h => variant "ScriptPubkey" (toJson h)
  | .all scripts => variant "ScriptAll" (.arr (NativeScript.toJsonValues scripts))
  | .any scripts => variant "ScriptAny" (.arr (NativeScript.toJsonValues scripts))
  | .atLeast n scripts =>
    variant "ScriptNOfK" (.arr [toJson n, .arr (NativeScript.toJsonValues scripts)])
  | .invalidBefore slot => variant "InvalidBefore" (toJson slot)
  | .invalidHereafter slot => variant "InvalidHereafter" (toJson slot)

def NativeScript.toJsonValues : List NativeScript → List Json
  | [] => []
  | s :: rest => NativeScript.toJsonValue s :: NativeScript.toJsonValues rest

end

instance : ToJson NativeScript := ⟨NativeScript.toJsonValue⟩

def NativeScript.ofJson? : (depth : Nat) → Json → Option NativeScript
  | 0, _ => none
  | depth + 1, j => do
    let scripts (c : Json) : Option (List NativeScript) :=
      c.items?.bind (·.mapM (NativeScript.ofJson? depth))
    match ← variant? j with
    | ("ScriptPubkey", c) => (fromJson? c).map .pubkey
    | ("ScriptAll", c) => (scripts c).map .all
    | ("ScriptAny", c) => (scripts c).map .any
    | ("ScriptNOfK", .arr [n, c]) => do
      let n ← fromJson? n
      return .atLeast n (← scripts c)
    | ("InvalidBefore", c) => (fromJson? c).map .invalidBefore
    | ("InvalidHereafter", c) => (fromJson? c).map .invalidHereafter
    | _ => none

instance : FromJson NativeScript := ⟨NativeScript.ofJson? Json.maxDepth⟩

instance : ToJson Script where
  toJson
    | .native s => variant "Native" (toJson s)
    | .plutus l code => variant l.name (.str (Hex.encode code))

instance : FromJson Script where
  fromJson? j := do
    match ← variant? j with
    | ("Native", c) => (fromJson? c).map .native
    | (name, c) =>
      let l ← Language.all.find? (fun l => l.name == name)
      (Json.bytes? c).map (.plutus l)

instance : ToJson Purpose := ⟨fun p => .str p.name⟩

instance : FromJson Purpose where
  fromJson? j := do
    let (name, c) ← variant? j
    let p ← Purpose.all.find? (fun p => p.name == name)
    plain p c

instance : ToJson RedeemerPointer where
  toJson p := .obj [("tag", toJson p.purpose), ("index", toJson p.index)]

instance : FromJson RedeemerPointer where
  fromJson? j := do
    let r ← record? ["tag", "index"] j
    return ⟨← r.required "tag", ← r.required "index"⟩

instance : ToJson ExUnits where
  toJson u := .obj [("mem", toJson u.mem), ("steps", toJson u.steps)]

instance : FromJson ExUnits where
  fromJson? j := do
    let r ← record? ["mem", "steps"] j
    return ⟨← r.required "mem", ← r.required "steps"⟩

instance : ToJson Anchor where
  toJson a := .obj [("url", toJson a.url), ("data_hash", toJson a.dataHash)]

instance : FromJson Anchor where
  fromJson? j := do
    let r ← record? ["url", "data_hash"] j
    return ⟨← r.required "url", ← r.required "data_hash"⟩

instance : ToJson DRep where
  toJson
    | .key h => variant "Key" (toJson h)
    | .script h => variant "Script" (toJson h)
    | .abstain => .str "Abstain"
    | .noConfidence => .str "NoConfidence"

instance : FromJson DRep where
  fromJson? j := do
    match ← variant? j with
    | ("Key", c) => (fromJson? c).map .key
    | ("Script", c) => (fromJson? c).map .script
    | ("Abstain", c) => plain .abstain c
    | ("NoConfidence", c) => plain .noConfidence c
    | _ => none

instance : ToJson Voter where
  toJson
    | .committee c => variant "ConstitutionalCommittee" (toJson c)
    | .drep c => variant "DRep" (toJson c)
    | .pool id => variant "StakePool" (toJson id)

instance : FromJson Voter where
  fromJson? j := do
    match ← variant? j with
    | ("ConstitutionalCommittee", c) => (fromJson? c).map .committee
    | ("DRep", c) => (fromJson? c).map .drep
    | ("StakePool", c) => (fromJson? c).map .pool
    | _ => none

instance : ToJson Vote where
  toJson
    | .no => .str "No"
    | .yes => .str "Yes"
    | .abstain => .str "Abstain"

instance : FromJson Vote where
  fromJson? j := do
    match ← variant? j with
    | ("No", c) => plain .no c
    | ("Yes", c) => plain .yes c
    | ("Abstain", c) => plain .abstain c
    | _ => none

instance : ToJson VotingProcedure where
  toJson p := .obj [("vote", toJson p.vote), ("anchor", toJson p.anchor)]

instance : FromJson VotingProcedure where
  fromJson? j := do
    let r ← record? ["vote", "anchor"] j
    return ⟨← r.required "vote", ← r.optional "anchor"⟩

instance : ToJson GovActionId where
  toJson id := .obj [("transaction_id", toJson id.transaction), ("action_index", toJson id.index)]

instance : FromJson GovActionId where
  fromJson? j := do
    let r ← record? ["transaction_id", "action_index"] j
    return ⟨← r.required "transaction_id", ← r.required "action_index"⟩

instance : ToJson Genesis where
  toJson g :=
    .obj [("byron_timestamp", toJson g.byronTimestamp), ("shelley_epoch", toJson g.shelleyEpoch),
      ("shelley_epoch_len", toJson g.shelleyEpochLength)]

instance : FromJson Genesis where
  fromJson? j := do
    let r ← record? ["byron_timestamp", "shelley_epoch", "shelley_epoch_len"] j
    return ⟨← r.required "byron_timestamp", ← r.required "shelley_epoch",
      ← r.required "shelley_epoch_len"⟩

namespace Certificate

instance : ToJson Certificate where
  toJson
    | stakeRegistration a => variant "StakeRegistration" (toJson a)
    | stakeDeregistration a => variant "StakeDeregistration" (toJson a)
    | stakeDelegation a pool =>
      variant "StakeDelegation" (.obj [("stake_address", toJson a), ("operator", toJson pool)])
    | poolRetirement pool epoch =>
      variant "PoolRetirement" (.obj [("operator", toJson pool), ("epoch", toJson epoch)])
    | registration a d =>
      variant "Registration" (.obj [("stake_address", toJson a), ("deposit", toJson d)])
    | deregistration a r =>
      variant "Deregistration" (.obj [("stake_address", toJson a), ("refund", toJson r)])
    | voteDelegation a drep =>
      variant "VoteDelegation" (.obj [("stake_address", toJson a), ("drep", toJson drep)])
    | stakeAndVoteDelegation a pool drep =>
      variant "StakeAndVoteDelegation"
        (.obj [("stake_address", toJson a), ("operator", toJson pool), ("drep", toJson drep)])
    | registrationAndStake a pool d =>
      variant "StakeRegistrationAndDelegation"
        (.obj [("stake_address", toJson a), ("operator", toJson pool), ("deposit", toJson d)])
    | registrationAndVote a drep d =>
      variant "StakeRegistrationAndVoteDelegation"
        (.obj [("stake_address", toJson a), ("drep", toJson drep), ("deposit", toJson d)])
    | registrationAndBoth a pool drep d =>
      variant "StakeRegistrationAndStakeAndVoteDelegation"
        (.obj [("stake_address", toJson a), ("operator", toJson pool), ("drep", toJson drep),
          ("deposit", toJson d)])
    | authCommitteeHot cold hot =>
      variant "AuthCommitteeHot"
        (.obj [("cold_credential", toJson cold), ("hot_credential", toJson hot)])
    | resignCommitteeCold cold anchor =>
      variant "ResignCommitteeCold"
        (.obj [("cold_credential", toJson cold), ("anchor", toJson anchor)])
    | drepRegistration c d anchor =>
      variant "DRepRegistration"
        (.obj [("credential", toJson c), ("deposit", toJson d), ("anchor", toJson anchor)])
    | drepDeregistration c r =>
      variant "DRepDeregistration" (.obj [("credential", toJson c), ("refund", toJson r)])
    | drepUpdate c anchor =>
      variant "DRepUpdate" (.obj [("credential", toJson c), ("anchor", toJson anchor)])

def ofContents? (name : String) (c : Json) : Option Certificate :=
  match name with
  | "StakeRegistration" => (fromJson? c).map stakeRegistration
  | "StakeDeregistration" => (fromJson? c).map stakeDeregistration
  | "StakeDelegation" => do
    let r ← record? ["stake_address", "operator"] c
    return stakeDelegation (← r.required "stake_address") (← r.required "operator")
  | "PoolRetirement" => do
    let r ← record? ["operator", "epoch"] c
    return poolRetirement (← r.required "operator") (← r.required "epoch")
  | "Registration" => do
    let r ← record? ["stake_address", "deposit"] c
    return registration (← r.required "stake_address") (← r.required "deposit")
  | "Deregistration" => do
    let r ← record? ["stake_address", "refund"] c
    return deregistration (← r.required "stake_address") (← r.required "refund")
  | "VoteDelegation" => do
    let r ← record? ["stake_address", "drep"] c
    return voteDelegation (← r.required "stake_address") (← r.required "drep")
  | "StakeAndVoteDelegation" => do
    let r ← record? ["stake_address", "operator", "drep"] c
    return stakeAndVoteDelegation (← r.required "stake_address") (← r.required "operator")
      (← r.required "drep")
  | "StakeRegistrationAndDelegation" => do
    let r ← record? ["stake_address", "operator", "deposit"] c
    return registrationAndStake (← r.required "stake_address") (← r.required "operator")
      (← r.required "deposit")
  | "StakeRegistrationAndVoteDelegation" => do
    let r ← record? ["stake_address", "drep", "deposit"] c
    return registrationAndVote (← r.required "stake_address") (← r.required "drep")
      (← r.required "deposit")
  | "StakeRegistrationAndStakeAndVoteDelegation" => do
    let r ← record? ["stake_address", "operator", "drep", "deposit"] c
    return registrationAndBoth (← r.required "stake_address") (← r.required "operator")
      (← r.required "drep") (← r.required "deposit")
  | "AuthCommitteeHot" => do
    let r ← record? ["cold_credential", "hot_credential"] c
    return authCommitteeHot (← r.required "cold_credential") (← r.required "hot_credential")
  | "ResignCommitteeCold" => do
    let r ← record? ["cold_credential", "anchor"] c
    return resignCommitteeCold (← r.required "cold_credential") (← r.optional "anchor")
  | "DRepRegistration" => do
    let r ← record? ["credential", "deposit", "anchor"] c
    return drepRegistration (← r.required "credential") (← r.required "deposit")
      (← r.optional "anchor")
  | "DRepDeregistration" => do
    let r ← record? ["credential", "refund"] c
    return drepDeregistration (← r.required "credential") (← r.required "refund")
  | "DRepUpdate" => do
    let r ← record? ["credential", "anchor"] c
    return drepUpdate (← r.required "credential") (← r.optional "anchor")
  | _ => none

instance : FromJson Certificate where
  fromJson? j := (variant? j).bind (fun (name, c) => ofContents? name c)

end Certificate

end ConwayTx
