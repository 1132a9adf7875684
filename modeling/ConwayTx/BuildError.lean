import ConwayTx.Address.Error
import ConwayTx.Metadata
import ConwayTx.OutRef
import ConwayTx.Redeemer
import ConwayTx.Value

namespace ConwayTx

inductive Setting
  | changeAddress
  | utxos
  | collateralUtxos
  | collateralChangeAddress
  deriving DecidableEq, Repr

def Setting.name : Setting → String
  | changeAddress => "change address"
  | utxos => "utxos"
  | collateralUtxos => "collateral utxos"
  | collateralChangeAddress => "collateral change address"

inductive Total
  | deposits
  | refunds
  | withdrawals
  | implicitInput
  deriving DecidableEq, Repr

def Total.name : Total → String
  | deposits => "deposits"
  | refunds => "refunds"
  | withdrawals => "withdrawals"
  | implicitInput => "implicit input"

inductive BuildError
  | notSet (what : Setting)
  | missingScript (hash : ScriptHash)
  | missingRedeemer (pointer : RedeemerPointer)
  | missingDatum (ref : OutRef)
  | address (e : AddressError)
  | rewardAddress (e : AddressError)
  | poolId (e : Bech32Error)
  | drepId (e : Bech32Error)
  | policyId (e : HexError)
  | keyHash (e : HexError)
  | assetName (e : AssetError)
  | assetId (e : AssetError)
  | metadata (e : MetadataError)
  | zeroMint
  | mintOverflow (policy : PolicyId) (name : AssetName)
  | totalOverflow (total : Total)
  | implicitOverflow
  | spentOverflow
  | notScriptAddress
  | noCostModel (language : Language)
  | strayRedeemer (pointer : RedeemerPointer)
  | nativeRedeemer (hash : ScriptHash)
  | datumMismatch (ref : OutRef)
  | unitsBeyond (needed limit : ExUnits)
  | valueTooLarge (size : Nat) (limit : UInt32)
  | txTooLarge (size : Nat) (limit : UInt32)
  | inputsExhausted (missing : Value)
  | nothingToSpend
  | cannotPay (spend : Value)
  | collateralShort (required : UInt64)
  | alreadyBuilt
  | unsettled (rounds : UInt32)
  | unbalanced (consumed produced : Value)
  | noBudget (pointer : RedeemerPointer)
  | evaluation (why : String)
  | unencodable (e : MetadataError)
  | overflow

namespace BuildError

inductive Kind
  | missing
  | address
  | decoding
  | argument
  | balance
  | state
  | evaluation
  | encoding
  | overflow
  deriving DecidableEq, Repr

def kind : BuildError → Kind
  | notSet _ | missingScript _ | missingRedeemer _ | missingDatum _ => .missing
  | address e => if e.isMalformed then .decoding else .address
  | rewardAddress e => if e.isMalformed then .decoding else .argument
  | poolId e | drepId e => if e.isMalformed then .decoding else .argument
  | policyId _ | keyHash _ => .decoding
  | assetName (.hex _) | assetId (.hex _) => .decoding
  | metadata .json => .decoding
  | inputsExhausted _ | nothingToSpend | cannotPay _ | collateralShort _ => .balance
  | alreadyBuilt | unsettled _ | unbalanced _ _ => .state
  | noBudget _ | evaluation _ => .evaluation
  | unencodable _ => .encoding
  | overflow => .overflow
  | _ => .argument

def Kind.lead : Kind → String
  | address => "Invalid address: "
  | argument => "Invalid argument: "
  | balance => "Insufficient balance: "
  | state => "Illegal state: "
  | evaluation => "Script evaluation failed: "
  | encoding => "Encoding failed: "
  | missing | decoding | overflow => ""

def undecodable (what : String) (e : HexError) : String := s!"Cannot decode {what}: {e.message}"

def aboutText (what : String) (malformed : Bool) (reason : Option String) : String :=
  if malformed then s!"Cannot decode {what}" else s!"{what}: {reason.getD what}"

def account : BuildError → String
  | notSet what => s!"{what.name} is not set"
  | missingScript hash => s!"script {hash.toHex} is not attached or referenced"
  | missingRedeemer pointer => s!"no redeemer for script purpose {pointer.describe}"
  | missingDatum ref => s!"no datum for script locked input {ref.toText}"
  | address e => if e.isMalformed then "Cannot decode address" else e.message?.getD ""
  | rewardAddress e => aboutText "reward address" e.isMalformed e.message?
  | poolId e => aboutText "pool id" e.isMalformed e.message?
  | drepId e => aboutText "drep id" e.isMalformed e.message?
  | policyId e => undecodable "policy id" e
  | keyHash e => undecodable "key hash" e
  | assetName (.hex e) => undecodable "asset name" e
  | assetName e => e.message
  | assetId (.hex e) => undecodable "asset id" e
  | assetId e => s!"asset id: {e.message}"
  | metadata e => e.message?.getD "Cannot decode metadata json"
  | zeroMint => "mint amount must not be zero"
  | mintOverflow policy name => s!"mint of {policy.toHex}.{name.toHex} overflows"
  | totalOverflow total => s!"{total.name} overflow"
  | implicitOverflow => "implicit input overflows"
  | spentOverflow => "value sent overflows"
  | notScriptAddress => "value can only be locked at a script address"
  | noCostModel language => s!"no cost model for {language.name}"
  | strayRedeemer pointer => s!"redeemer given for {pointer.describe}, which is not script locked"
  | nativeRedeemer hash => s!"native script {hash.toHex} takes no redeemer"
  | datumMismatch ref => s!"datum supplied for {ref.toText} does not match its datum hash"
  | unitsBeyond needed limit =>
    s!"scripts need {needed.describe}, above the transaction limit {limit.describe}"
  | valueTooLarge size limit => s!"output value of {size} bytes exceeds {limit}"
  | txTooLarge size limit => s!"transaction of {size} bytes exceeds {limit}"
  | inputsExhausted missing => s!"inputs exhausted, {missing.describe} still missing"
  | nothingToSpend => "no utxo to spend"
  | cannotPay spend => s!"selected inputs cannot pay for {spend.describe}"
  | collateralShort required => s!"collateral pool cannot provide {required} lovelace"
  | alreadyBuilt => "transaction already built"
  | unsettled rounds => s!"fee did not settle after {rounds} rounds"
  | unbalanced consumed produced =>
    s!"unbalanced transaction: consumed {consumed.describe}, produced {produced.describe}"
  | noBudget pointer => s!"no budget returned for {pointer.describe}"
  | evaluation why => why
  | unencodable e => e.message?.getD ""
  | overflow => "attempt to add with overflow"

def message (e : BuildError) : String := e.kind.lead ++ e.account

end BuildError

end ConwayTx
