import ConwayTx.Plutus.Data

namespace ConwayTx

open Cbor (Item Reader)

inductive Language
  | v1
  | v2
  | v3
  deriving DecidableEq, Repr

namespace Language

def all : List Language := [v1, v2, v3]

def costModelKey : Language → Nat
  | v1 => 0
  | v2 => 1
  | v3 => 2

def tag (l : Language) : UInt8 := UInt8.ofNat (l.costModelKey + 1)

def name : Language → String
  | v1 => "PlutusV1"
  | v2 => "PlutusV2"
  | v3 => "PlutusV3"

instance : Ranked Language where
  rank l := [l.costModelKey]
  rank_inj {a b} h := by cases a <;> cases b <;> simp_all [costModelKey]

end Language

inductive NativeScript
  | pubkey (hash : KeyHash)
  | all (scripts : List NativeScript)
  | any (scripts : List NativeScript)
  | atLeast (n : UInt32) (scripts : List NativeScript)
  | invalidBefore (slot : UInt64)
  | invalidHereafter (slot : UInt64)

namespace NativeScript

mutual

def toItem : NativeScript → Item
  | pubkey h => .array 2 [.nat 0, h.toItem]
  | all scripts => .array 2 [.nat 1, .array scripts.length (itemsOf scripts)]
  | any scripts => .array 2 [.nat 2, .array scripts.length (itemsOf scripts)]
  | atLeast n scripts => .array 3 [.nat 3, .nat n.toUInt64, .array scripts.length (itemsOf scripts)]
  | invalidBefore slot => .array 2 [.nat 4, .nat slot]
  | invalidHereafter slot => .array 2 [.nat 5, .nat slot]

def itemsOf : List NativeScript → List Item
  | [] => []
  | s :: rest => toItem s :: itemsOf rest

end

def encode (s : NativeScript) : Bytes := s.toItem.encode

def hash (s : NativeScript) : ScriptHash := blake2b224Tagged 0 s.encode

mutual

def keysIn : NativeScript → List KeyHash
  | pubkey h => [h]
  | all scripts => keysInAll scripts
  | any scripts => keysInAll scripts
  | atLeast _ scripts => keysInAll scripts
  | invalidBefore _ => []
  | invalidHereafter _ => []

def keysInAll : List NativeScript → List KeyHash
  | [] => []
  | s :: rest => keysIn s ++ keysInAll rest

end

def keyHashes (s : NativeScript) : OrdSet KeyHash := OrdSet.ofList s.keysIn

/-- Reads scripts that nest at most `depth` deep. Announced lengths are not compared. -/
def readWithin : (depth : Nat) → Reader NativeScript
  | 0 => Reader.fail .malformed
  | depth + 1 =>
    let scripts := Reader.arrayOf (readWithin depth)
    Reader.arrayHeader.bind (fun _ =>
      Reader.uint32.bind (fun variant =>
        match variant with
        | 0 => (Reader.hash 28).map pubkey
        | 1 => scripts.map all
        | 2 => scripts.map any
        | 3 => Reader.uint32.bind (fun n => scripts.map (atLeast n))
        | 4 => Reader.nat.map invalidBefore
        | 5 => Reader.nat.map invalidHereafter
        | variant => Reader.fail (.unknownNativeScript variant)))

def read : Reader NativeScript := fun bs => readWithin (bs.length + 1) bs

end NativeScript

inductive Script
  | native (script : NativeScript)
  | plutus (language : Language) (code : Bytes)

namespace Script

def hash : Script → ScriptHash
  | native s => s.hash
  | plutus l code => blake2b224Tagged l.tag code

def language? : Script → Option Language
  | native _ => none
  | plutus l _ => some l

def isPlutus (s : Script) : Bool := s.language?.isSome

/-- The bytes that count against the reference script fee. -/
def size : Script → Nat
  | native s => s.encode.length
  | plutus _ code => code.length

def toItem : Script → Item
  | native s => .array 2 [.nat 0, s.toItem]
  | plutus l code => .array 2 [.ofNat l.tag.toNat, .bytes code]

def encode (s : Script) : Bytes := s.toItem.encode

def read : Reader Script :=
  Reader.arrayHeader.bind (fun _ =>
    Reader.uint8.bind (fun tag =>
      match tag with
      | 0 => NativeScript.read.map native
      | 1 => Reader.bytes.map (plutus .v1)
      | 2 => Reader.bytes.map (plutus .v2)
      | 3 => Reader.bytes.map (plutus .v3)
      | tag => Reader.fail (.unknownLanguage tag)))

def decode (bs : Bytes) : Except DecodeError Script := read.run bs

end Script

inductive Datum
  | hash (h : DatumHash)
  | inline (data : PlutusData)

namespace Datum

def hashOf : Datum → DatumHash
  | hash h => h
  | inline data => data.hash

end Datum

end ConwayTx
