import ConwayTx.Certificate
import ConwayTx.Governance
import ConwayTx.Metadata
import ConwayTx.Redeemer
import ConwayTx.Utxo

namespace ConwayTx

open Cbor (Item)

structure VKeyWitness where
  key : Bytes
  signature : Bytes
  deriving DecidableEq

namespace VKeyWitness

/-- Stands for a signature to come, in its size; different seeds give different keys. -/
def placeholder (seed : Nat) : VKeyWitness :=
  ⟨Bytes.ofNat 8 seed ++ List.replicate 24 0, List.replicate 64 0⟩

def toItem (w : VKeyWitness) : Item := .array 2 [.bytes w.key, .bytes w.signature]

end VKeyWitness

structure TxBody where
  inputs : OrdSet OutRef := ∅
  outputs : List TxOut := []
  fee : UInt64 := 0
  ttl : Option UInt64 := none
  certificates : List Certificate := []
  withdrawals : OrdMap StakeAddress UInt64 := ∅
  auxiliaryDataHash : Option (Hash 32) := none
  validityStart : Option UInt64 := none
  mint : Mint := ∅
  scriptDataHash : Option (Hash 32) := none
  collateral : OrdSet OutRef := ∅
  requiredSigners : OrdSet KeyHash := ∅
  network : Option Network := none
  collateralReturn : Option TxOut := none
  totalCollateral : Option UInt64 := none
  referenceInputs : OrdSet OutRef := ∅
  votes : Votes := ∅
  proposals : List Proposal := []

namespace TxBody

def refsItem (refs : OrdSet OutRef) : Item := .array refs.size (refs.keys.map OutRef.toItem)

def optional {α : Type} (key : UInt64) (f : α → Item) (value : Option α) : List (Item × Item) :=
  match value with
  | some a => [(.nat key, f a)]
  | none => []

def filled (key : UInt64) (isEmpty : Bool) (item : Item) : List (Item × Item) :=
  if isEmpty then [] else [(.nat key, item)]

def entries (b : TxBody) : List (Item × Item) :=
  [(.nat 0, refsItem b.inputs), (.nat 1, .array b.outputs.length (b.outputs.map TxOut.toItem)),
      (.nat 2, .nat b.fee)] ++
  optional 3 .nat b.ttl ++
  filled 4 b.certificates.isEmpty
      (.array b.certificates.length (b.certificates.map Certificate.toItem)) ++
  filled 5 b.withdrawals.isEmpty
      (.map b.withdrawals.size (b.withdrawals.toList.map (fun w => (w.1.toItem, .nat w.2)))) ++
  optional 7 Hash.toItem b.auxiliaryDataHash ++
  optional 8 .nat b.validityStart ++
  filled 9 b.mint.isEmpty b.mint.toItem ++
  optional 11 Hash.toItem b.scriptDataHash ++
  filled 13 b.collateral.isEmpty (refsItem b.collateral) ++
  filled 14 b.requiredSigners.isEmpty
      (.array b.requiredSigners.size (b.requiredSigners.keys.map Hash.toItem)) ++
  optional 15 (fun n => .ofNat n.rank) b.network ++
  optional 16 TxOut.toItem b.collateralReturn ++
  optional 17 .nat b.totalCollateral ++
  filled 18 b.referenceInputs.isEmpty (refsItem b.referenceInputs) ++
  filled 19 b.votes.isEmpty b.votes.toItem ++
  filled 20 b.proposals.isEmpty (.array b.proposals.length (b.proposals.map Proposal.toItem))

/-- The number that the body announces, from tests of its own. -/
def fieldCount (b : TxBody) : Nat :=
  [true, true, true, b.ttl.isSome, !b.certificates.isEmpty, !b.withdrawals.isEmpty,
    b.auxiliaryDataHash.isSome, b.validityStart.isSome, !b.mint.isEmpty, b.scriptDataHash.isSome,
    !b.collateral.isEmpty, !b.requiredSigners.isEmpty, b.network.isSome,
    b.collateralReturn.isSome, b.totalCollateral.isSome, !b.referenceInputs.isEmpty,
    !b.votes.isEmpty, !b.proposals.isEmpty].count true

def toItem (b : TxBody) : Item := .map b.fieldCount b.entries

def encode (b : TxBody) : Bytes := b.toItem.encode

end TxBody

structure Witnesses where
  vkeys : List VKeyWitness := []
  native : List NativeScript := []
  v1 : List Bytes := []
  v2 : List Bytes := []
  v3 : List Bytes := []
  datums : List PlutusData := []
  redeemers : List Redeemer := []

namespace Witnesses

def datumsItem (ds : List PlutusData) : Item := .array ds.length (ds.map PlutusData.toItem)

def entries (w : Witnesses) : List (Item × Item) :=
  TxBody.filled 0 w.vkeys.isEmpty (.array w.vkeys.length (w.vkeys.map VKeyWitness.toItem)) ++
  TxBody.filled 1 w.native.isEmpty (.array w.native.length (w.native.map NativeScript.toItem)) ++
  TxBody.filled 3 w.v1.isEmpty (.array w.v1.length (w.v1.map .bytes)) ++
  TxBody.filled 4 w.datums.isEmpty (datumsItem w.datums) ++
  TxBody.filled 5 w.redeemers.isEmpty (Redeemer.mapItem w.redeemers) ++
  TxBody.filled 6 w.v2.isEmpty (.array w.v2.length (w.v2.map .bytes)) ++
  TxBody.filled 7 w.v3.isEmpty (.array w.v3.length (w.v3.map .bytes))

def fieldCount (w : Witnesses) : Nat :=
  [!w.vkeys.isEmpty, !w.native.isEmpty, !w.v1.isEmpty, !w.datums.isEmpty, !w.redeemers.isEmpty,
    !w.v2.isEmpty, !w.v3.isEmpty].count true

def toItem (w : Witnesses) : Item := .map w.fieldCount w.entries

def addScript (w : Witnesses) : Script → Witnesses
  | .native s => { w with native := w.native ++ [s] }
  | .plutus .v1 code => { w with v1 := w.v1 ++ [code] }
  | .plutus .v2 code => { w with v2 := w.v2 ++ [code] }
  | .plutus .v3 code => { w with v3 := w.v3 ++ [code] }

end Witnesses

/-- What the script integrity hash is taken of: the redeemers, the datums if there are any, and
the views of the languages that run, which are none where nothing runs. -/
def integrityPreimage (redeemers : List Redeemer) (datums : List PlutusData) (views : Bytes) :
    Bytes :=
  (Redeemer.mapItem redeemers).encode ++
  (if datums.isEmpty then [] else (Witnesses.datumsItem datums).encode) ++
  (if redeemers.isEmpty then [0xa0] else views)

def integrityHash (redeemers : List Redeemer) (datums : List PlutusData) (views : Bytes) :
    Hash 32 :=
  blake2b256 (integrityPreimage redeemers datums views)

structure Tx where
  body : TxBody
  witnesses : Witnesses
  isValid : Bool := true
  metadata : Option Metadata := none

namespace Tx

def metadataItem (tx : Tx) : Except MetadataError Item :=
  match tx.metadata with
  | some m => m.toItem
  | none => .ok .null

def toItem (tx : Tx) : Except MetadataError Item :=
  tx.metadataItem.map (fun metadata =>
    .array 4 [tx.body.toItem, tx.witnesses.toItem, .bool tx.isValid, metadata])

def encode (tx : Tx) : Except MetadataError Bytes := tx.toItem.map Item.encode

/-- The encoding, or no bytes at all where the metadata cannot be encoded. -/
def bytes (tx : Tx) : Bytes :=
  match tx.encode with
  | .ok bs => bs
  | .error _ => []

def size (tx : Tx) : Nat := tx.bytes.length

def id (tx : Tx) : TxHash := blake2b256 tx.body.encode

end Tx

end ConwayTx
