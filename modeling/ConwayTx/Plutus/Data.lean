import ConwayTx.Cbor.Reader
import ConwayTx.Int128
/-!
Plutus data: what datums and redeemers hold, and its encoding. Lists with members are written with
indefinite length, long byte strings in pieces of 64, wide integers as tagged magnitudes.
-/

namespace ConwayTx

inductive PlutusData
  | constr (tag : UInt64) (fields : List PlutusData)
  | map (entries : List (PlutusData × PlutusData))
  | list (items : List PlutusData)
  | int (n : Int128)
  | bytes (b : Bytes)

namespace PlutusData

open Cbor (Item Reader)

def unit : PlutusData := constr 0 []

/-- A byte string, in pieces where it is longer than 64 bytes. -/
def boundedBytes (b : Bytes) : Item :=
  if b.length ≤ 64 then .bytes b else .chunks (b.chunks 63)

def intItem (n : Int128) : Item :=
  if n.isPlain then Item.ofInt n.toInt
  else
    match n.toInt with
    | .ofNat m => .tag 2 (boundedBytes (Bytes.ofNatMinimal m))
    | .negSucc m => .tag 3 (boundedBytes (Bytes.ofNatMinimal m))

def listItem (items : List Item) : Item :=
  if items.isEmpty then .array 0 [] else .stream items

def constrItem (tag : UInt64) (fields : List Item) : Item :=
  if tag ≤ 6 then .tag (121 + tag) (listItem fields)
  else if tag ≤ 127 then .tag (1280 + tag - 7) (listItem fields)
  else .tag 102 (.array 2 [.nat tag, listItem fields])

mutual

def toItem : PlutusData → Item
  | constr tag fields => constrItem tag (itemsOf fields)
  | map entries => .map entries.length (entriesOf entries)
  | list items => listItem (itemsOf items)
  | int n => intItem n
  | bytes b => boundedBytes b

def itemsOf : List PlutusData → List Item
  | [] => []
  | d :: rest => toItem d :: itemsOf rest

def entriesOf : List (PlutusData × PlutusData) → List (Item × Item)
  | [] => []
  | (k, v) :: rest => (toItem k, toItem v) :: entriesOf rest

end

def encode (d : PlutusData) : Bytes := d.toItem.encode

def hash (d : PlutusData) : DatumHash := blake2b256 d.encode

def magnitude (bs : Bytes) : Except DecodeError Nat :=
  if bs.length > 16 then .error .wideBignum else .ok (Bytes.toNat bs)

def bignum (n : Int) : Except DecodeError PlutusData :=
  match Int128.ofInt? n with
  | some n => .ok (int n)
  | none => .error .bignumOverflow

def readTagged (fields : Reader (List PlutusData)) (t : UInt64) : Reader PlutusData :=
  if 121 ≤ t ∧ t ≤ 127 then fields.map (constr (t - 121))
  else if 1280 ≤ t ∧ t ≤ 1400 then fields.map (constr (t - 1280 + 7))
  else if t = 102 then
    Reader.arrayHeader.bind (fun _ => Reader.nat.bind (fun tag => fields.map (constr tag)))
  else if t = 2 then
    Reader.chunkedBytes.check (fun bs => (magnitude bs).bind (fun m => bignum m))
  else if t = 3 then
    Reader.chunkedBytes.check (fun bs => (magnitude bs).bind (fun m => bignum (-1 - (m : Int))))
  else Reader.fail (.unexpectedTag t)

def readInt : Reader PlutusData :=
  Reader.int.check (fun n =>
    match Int128.ofInt? n with
    | some n => .ok (int n)
    | none => .error .malformed)

def readWithin : (depth : Nat) → Reader PlutusData
  | 0 => Reader.fail .malformed
  | depth + 1 =>
    let inner := readWithin depth
    Reader.peek.bind (fun b =>
      if Reader.major b = 6 then Reader.tag.bind (readTagged (Reader.arrayOf inner))
      else if Reader.major b = 5 then (Reader.mapOf inner inner).map map
      else if Reader.major b = 4 then (Reader.arrayOf inner).map list
      else if Reader.major b = 2 then Reader.chunkedBytes.map bytes
      else readInt)

/-- Every level of nesting takes a byte, so the bytes bound the depth. -/
def read : Reader PlutusData := fun bs => readWithin (bs.length + 1) bs

def decode (bs : Bytes) : Except DecodeError PlutusData := read.run bs

mutual

/-- A list of numbers whose lexicographic order is the order of data: constructors, maps, lists,
integers, bytes, and then by contents. -/
def sortKey : PlutusData → List Nat
  | constr tag fields => 0 :: tag.toNat :: sortKeys fields
  | map entries => 1 :: sortKeyEntries entries
  | list items => 2 :: sortKeys items
  | int n => [3, (n.toInt + Int128.largest + 1).toNat]
  | bytes b => 4 :: (b.map (·.toNat + 1) ++ [0])

def sortKeys : List PlutusData → List Nat
  | [] => [0]
  | d :: rest => 1 :: (sortKey d ++ sortKeys rest)

def sortKeyEntries : List (PlutusData × PlutusData) → List Nat
  | [] => [0]
  | (k, v) :: rest => 1 :: (sortKey k ++ sortKey v ++ sortKeyEntries rest)

end

def sort (ds : List PlutusData) : List PlutusData :=
  ds.mergeSort (fun a b => !decide (sortKey b < sortKey a))

end PlutusData

end ConwayTx
