import ConwayTx.Address.Text
import ConwayTx.Draft
import ConwayTx.Json.Ledger
import ConwayTx.Json.Members

namespace ConwayTx

open Json (variant)

instance {α β : Type} [FromJson α] [FromJson β] : FromJson (α × β) where
  fromJson?
    | .arr [a, b] => do return (← fromJson? a, ← fromJson? b)
    | _ => none

instance : ToJson Int128 := ⟨fun n => .str (toString n)⟩

instance : FromJson Int128 where
  fromJson? j := j.str?.bind (fun s => s.toInt?.bind Int128.ofInt?)

instance : ToJson Bytes := ⟨fun bs => .str (Hex.encode bs)⟩

instance : FromJson Bytes := ⟨Json.bytes?⟩

namespace PlutusData

mutual

def toTree : PlutusData → Json
  | constr tag fields => variant "constr" (.arr [.nat tag, .arr (toTrees fields)])
  | map entries => variant "map" (.arr (toTreePairs entries))
  | list items => variant "list" (.arr (toTrees items))
  | int n => variant "int" (toJson n)
  | bytes b => variant "bytes" (toJson b)

def toTrees : List PlutusData → List Json
  | [] => []
  | d :: rest => toTree d :: toTrees rest

def toTreePairs : List (PlutusData × PlutusData) → List Json
  | [] => []
  | (k, v) :: rest => .arr [toTree k, toTree v] :: toTreePairs rest

end

mutual

def ofTree? : Json → Option PlutusData
  | .obj [("constr", .arr [.nat tag, .arr fields])] => (ofTrees? fields).map (constr tag)
  | .obj [("map", .arr entries)] => (ofTreePairs? entries).map map
  | .obj [("list", .arr items)] => (ofTrees? items).map list
  | .obj [("int", n)] => (fromJson? n).map int
  | .obj [("bytes", b)] => (fromJson? b).map bytes
  | _ => none

def ofTrees? : List Json → Option (List PlutusData)
  | [] => some []
  | j :: rest => do
    let d ← ofTree? j
    let ds ← ofTrees? rest
    return d :: ds

def ofTreePairs? : List Json → Option (List (PlutusData × PlutusData))
  | [] => some []
  | .arr [k, v] :: rest => do
    let k ← ofTree? k
    let v ← ofTree? v
    let entries ← ofTreePairs? rest
    return (k, v) :: entries
  | _ => none

end

end PlutusData

instance : ToJson PlutusData := ⟨PlutusData.toTree⟩
instance : FromJson PlutusData := ⟨PlutusData.ofTree?⟩

namespace Metadatum

mutual

def toTree : Metadatum → Json
  | int n => variant "int" (toJson n)
  | bytes b => variant "bytes" (toJson b)
  | text t => variant "text" (.str t)
  | array items => variant "array" (.arr (toTrees items))
  | map entries => variant "map" (.arr (toTreePairs entries))

def toTrees : List Metadatum → List Json
  | [] => []
  | m :: rest => toTree m :: toTrees rest

def toTreePairs : List (Metadatum × Metadatum) → List Json
  | [] => []
  | (k, v) :: rest => .arr [toTree k, toTree v] :: toTreePairs rest

end

mutual

def ofTree? : Json → Option Metadatum
  | .obj [("int", n)] => (fromJson? n).map int
  | .obj [("bytes", b)] => (fromJson? b).map bytes
  | .obj [("text", .str t)] => some (text t)
  | .obj [("array", .arr items)] => (ofTrees? items).map array
  | .obj [("map", .arr entries)] => (ofTreePairs? entries).map map
  | _ => none

def ofTrees? : List Json → Option (List Metadatum)
  | [] => some []
  | j :: rest => do
    let m ← ofTree? j
    let ms ← ofTrees? rest
    return m :: ms

def ofTreePairs? : List Json → Option (List (Metadatum × Metadatum))
  | [] => some []
  | .arr [k, v] :: rest => do
    let k ← ofTree? k
    let v ← ofTree? v
    let entries ← ofTreePairs? rest
    return (k, v) :: entries
  | _ => none

end

end Metadatum

instance : ToJson Metadatum := ⟨Metadatum.toTree⟩
instance : FromJson Metadatum := ⟨Metadatum.ofTree?⟩

instance : FromJson Metadata where
  fromJson? j := (fromJson? j : Option (List (UInt64 × Metadatum))).map OrdMap.ofList

instance : ToJson Datum where
  toJson
    | .hash h => variant "hash" (toJson h)
    | .inline d => variant "inline" (toJson d)

instance : FromJson Datum where
  fromJson?
    | .obj [("hash", h)] => (fromJson? h).map .hash
    | .obj [("inline", d)] => (fromJson? d).map .inline
    | _ => none

/-- An address as a text, or as an object with its bytes; null is no address. -/
def Address.ofSpelling? (j : Json) : Option Address :=
  match j with
  | .null => some .none
  | .str s => (Address.ofText s).toOption
  | j => (j.get? Bytes "hex").bind (fun bs => (Address.ofBytes bs).toOption)

def StakeAddress.ofSpelling? (j : Json) : Option StakeAddress :=
  (fromJson? j : Option Bytes).bind (fun bs => (StakeAddress.ofBytes bs).toOption)

def OutRef.ofSpelling? (j : Json) : Option OutRef :=
  j.str?.bind (fun s => (OutRef.ofText s).toOption)

namespace TxOut

def members (o : TxOut) : List (String × Json) :=
  [("address", toJson o.address.toBytes), ("value", toJson o.value)] ++
    (o.datum.map (fun d => ("datum", toJson d))).toList ++
    (o.scriptRef.map (fun s => ("script_ref", toJson s))).toList

instance : ToJson TxOut := ⟨fun o => .obj o.members⟩

instance : FromJson TxOut where
  fromJson? j := do
    let address ← Address.ofSpelling? ((j.member? "address").getD .null)
    return ⟨address, ← j.get? Value "value", ← j.maybe? Datum "datum",
      ← j.maybe? Script "script_ref"⟩

end TxOut

instance : ToJson Utxo where
  toJson u := .obj (("input", .str u.ref.toText) :: u.output.members)

instance : FromJson Utxo where
  fromJson? j := do return ⟨← (j.given? "input").bind OutRef.ofSpelling?, ← fromJson? j⟩

instance : ToJson Redeemer where
  toJson r :=
    .obj [("tag", toJson r.pointer.purpose), ("index", toJson r.pointer.index),
      ("data", toJson r.data), ("mem", toJson r.units.mem), ("steps", toJson r.units.steps)]

instance : FromJson Redeemer where
  fromJson? j := do
    return ⟨⟨← j.get? Purpose "tag", ← j.get? UInt32 "index"⟩, ← j.get? PlutusData "data",
      ⟨← j.getD? "mem" 0, ← j.getD? "steps" 0⟩⟩

def Redeemer.budgetOf? : Json → Option (RedeemerPointer × ExUnits)
  | .arr [purpose, index, mem, steps] => do
    return (⟨← fromJson? purpose, ← fromJson? index⟩, ⟨← fromJson? mem, ← fromJson? steps⟩)
  | _ => none

def Language.label : Language → String
  | .v1 => "V1"
  | .v2 => "V2"
  | .v3 => "V3"

instance : ToJson Language := ⟨fun l => .str l.label⟩

instance : FromJson Language where
  fromJson? j := j.str?.bind (fun s => Language.all.find? (fun l => l.label == s))

instance : ToJson Witnesses where
  toJson w :=
    .obj [("vkeys", .nat (UInt64.ofNat w.vkeys.length)), ("native", toJson w.native),
      ("v1", toJson w.v1), ("v2", toJson w.v2), ("v3", toJson w.v3),
      ("datums", toJson w.datums), ("redeemers", toJson w.redeemers)]

def GovAction.withdrawalsOf? (j : Json) : Option (OrdMap StakeAddress UInt64) := do
  let entries ← j.many? (Json × UInt64) "withdrawals"
  let pairs ← entries.mapM (fun (e : Json × UInt64) => (StakeAddress.ofSpelling? e.1).map (·, e.2))
  return OrdMap.ofList pairs

instance : FromJson GovAction where
  fromJson?
    | .str "info" => some .info
    | .obj [("no_confidence", previous)] => (fromJson? previous).map .noConfidence
    | .obj [("treasury", t)] => do
      return .treasuryWithdrawals (← GovAction.withdrawalsOf? t) (← t.maybe? ScriptHash "policy")
    | _ => none

def StakeAddress.member? (j : Json) (name : String) : Option StakeAddress :=
  (j.given? name).bind StakeAddress.ofSpelling?

instance : FromJson Proposal where
  fromJson? j := do
    return ⟨← j.get? UInt64 "deposit", ← StakeAddress.member? j "account",
      ← j.get? GovAction "action", ← j.get? Anchor "anchor"⟩

namespace Draft

def pinnedOf? (j : Json) : Option Pinned := do
  return ⟨← fromJson? j, ← j.maybe? PlutusData "redeemer", ← j.maybe? PlutusData "supplied_datum"⟩

def guardedOf? {α : Type} (action : Json → Option α) (j : Json) : Option (Guarded α) := do
  return ⟨← action j, ← j.maybe? PlutusData "redeemer"⟩

def withdrawalOf? (j : Json) : Option (StakeAddress × Guarded UInt64) := do
  return (← StakeAddress.member? j "account", ← guardedOf? (·.get? UInt64 "amount") j)

def mintRedeemerOf? (j : Json) : Option (PolicyId × PlutusData) := do
  return (← j.get? PolicyId "policy", ← j.get? PlutusData "redeemer")

def withVote? (d : Draft) (j : Json) : Option Draft := do
  return d.addVote (← j.get? Voter "voter") (← j.get? GovActionId "action")
    (← j.get? VotingProcedure "procedure") (← j.maybe? PlutusData "redeemer")

instance : FromJson Draft where
  fromJson? j := do
    let all (name : String) : Option (List Json) := j.many? Json name
    let scripts ← j.many? Script "scripts"
    let datums ← j.many? PlutusData "datums"
    let pinned ← (← all "inputs").mapM pinnedOf?
    let references ← j.many? Utxo "reference_inputs"
    let d : Draft := {
      outputs := ← j.many? TxOut "outputs"
      mint := ← j.getD? "mint" ∅
      mintRedeemers := OrdMap.ofList (← (← all "mint_redeemers").mapM mintRedeemerOf?)
      requiredSigners := OrdSet.ofList (← j.many? KeyHash "signers")
      metadata := ← j.getD? "metadata" ∅
      certificates := ← (← all "certificates").mapM (guardedOf? (·.get? Certificate "certificate"))
      withdrawals := OrdMap.ofList (← (← all "withdrawals").mapM withdrawalOf?)
      proposals := ← (← all "proposals").mapM (guardedOf? fromJson?)
      scripts := OrdMap.ofList (scripts.map (fun s => (s.hash, s)))
      datums := OrdMap.ofList (datums.map (fun data => (data.hash, data)))
      inputs := OrdMap.ofList (pinned.map (fun p => (p.utxo.ref, p)))
      referenceInputs := OrdMap.ofList (references.map (fun u => (u.ref, u))) }
    (← all "votes").foldlM withVote? d

end Draft

instance : ToJson (OrdSet OutRef) := ⟨fun refs => .arr (refs.keys.map (fun r => .str r.toText))⟩

instance : ToJson Tx where
  toJson tx :=
    let b := tx.body
    .obj [("id", toJson tx.id), ("cbor", toJson tx.bytes), ("size", .nat (UInt64.ofNat tx.size)),
      ("fee", toJson b.fee), ("inputs", toJson b.inputs), ("outputs", toJson b.outputs),
      ("ttl", toJson b.ttl), ("validity_start", toJson b.validityStart),
      ("collateral", toJson b.collateral), ("total_collateral", toJson b.totalCollateral),
      ("collateral_return", toJson b.collateralReturn),
      ("reference_inputs", toJson b.referenceInputs),
      ("script_data_hash", toJson b.scriptDataHash),
      ("auxiliary_data_hash", toJson b.auxiliaryDataHash), ("witnesses", toJson tx.witnesses)]

end ConwayTx
