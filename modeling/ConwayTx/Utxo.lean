import ConwayTx.Address.Basic
import ConwayTx.OutRef
import ConwayTx.Script
import ConwayTx.Value

namespace ConwayTx

open Cbor (Item)

structure TxOut where
  address : Address
  value : Value
  datum : Option Datum := none
  scriptRef : Option Script := none

namespace TxOut

def datumItem : Datum → Item
  | .hash h => .array 2 [.nat 0, h.toItem]
  | .inline data => .array 2 [.nat 1, .embedded data.encode]

def toItem (o : TxOut) : Item :=
  .map (2 + o.datum.isSome.toNat + o.scriptRef.isSome.toNat)
    ([(.nat 0, o.address.toItem), (.nat 1, o.value.toItem)] ++
      (o.datum.map (fun d => (Item.nat 2, datumItem d))).toList ++
      (o.scriptRef.map (fun s => (Item.nat 3, Item.embedded s.encode))).toList)

def size (o : TxOut) : Nat := o.toItem.encode.length

def scriptHash? (o : TxOut) : Option ScriptHash := o.address.scriptHash?

def isPureAda (o : TxOut) : Bool := !o.address.isScript && !o.value.hasAssets

def withLovelace (o : TxOut) (lovelace : UInt64) : TxOut :=
  { o with value := { o.value with lovelace := lovelace } }

end TxOut

structure Utxo where
  ref : OutRef
  output : TxOut

namespace Utxo

def value (u : Utxo) : Value := u.output.value

end Utxo

end ConwayTx
