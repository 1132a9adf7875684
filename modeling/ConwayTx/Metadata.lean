import ConwayTx.Cbor.Item
import ConwayTx.Hash
import ConwayTx.Int128

namespace ConwayTx

open Cbor (Item)

inductive MetadataError
  | json
  | unsupported (what : String)
  | tooLong (length : Nat)
  | outOfRange (n : Int128)
  deriving DecidableEq

def MetadataError.message? : MetadataError → Option String
  | .json => none
  | .unsupported what => some s!"{what} cannot be expressed as metadata"
  | .tooLong length => some s!"metadata string of {length} bytes exceeds the 64 byte limit"
  | .outOfRange n => some s!"integer {n} out of metadata range"

inductive Metadatum
  | int (n : Int128)
  | bytes (b : Bytes)
  | text (t : String)
  | array (items : List Metadatum)
  | map (entries : List (Metadatum × Metadatum))

namespace Metadatum

def maxLength : Nat := 64

mutual

def toItem : Metadatum → Except MetadataError Item
  | int n => if n.isPlain then .ok (Item.ofInt n.toInt) else .error (.outOfRange n)
  | bytes b => .ok (.bytes b)
  | text t => .ok (.text t)
  | array items => (itemsOf items).map (.array items.length)
  | map entries => (entriesOf entries).map (.map entries.length)

def itemsOf : List Metadatum → Except MetadataError (List Item)
  | [] => .ok []
  | m :: rest => do
    let item ← toItem m
    let items ← itemsOf rest
    return item :: items

def entriesOf : List (Metadatum × Metadatum) → Except MetadataError (List (Item × Item))
  | [] => .ok []
  | (k, v) :: rest => do
    let key ← toItem k
    let value ← toItem v
    let entries ← entriesOf rest
    return (key, value) :: entries

end

def encode (m : Metadatum) : Except MetadataError Bytes := m.toItem.map Item.encode

end Metadatum

instance : Ranked UInt64 where
  rank n := [n.toNat]
  rank_inj h := UInt64.toNat_inj.mp (List.cons.inj h).1

abbrev Metadata := OrdMap UInt64 Metadatum

namespace Metadata

def toItem (m : Metadata) : Except MetadataError Item :=
  (m.toList.mapM (fun (e : UInt64 × Metadatum) =>
    e.2.toItem.map (fun item => (Item.nat e.1, item)))).map (.map m.size)

def encode (m : Metadata) : Except MetadataError Bytes := m.toItem.map Item.encode

/-- The digest of the encoding; what has no encoding counts as no bytes. -/
def hash (m : Metadata) : Hash 32 :=
  blake2b256 (match m.encode with | .ok bs => bs | .error _ => [])

end Metadata

end ConwayTx
