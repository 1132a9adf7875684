import ConwayTx.Credential

namespace ConwayTx

structure Anchor where
  url : String
  dataHash : Hash 32
  deriving DecidableEq

namespace Anchor

def toItem (a : Anchor) : Cbor.Item := .array 2 [.text a.url, a.dataHash.toItem]

def read : Cbor.Reader Anchor :=
  Cbor.Reader.arrayHeader.bind (fun _ =>
    Cbor.Reader.text.bind (fun url =>
      (Cbor.Reader.hash 32).map (fun dataHash => ⟨url, dataHash⟩)))

end Anchor

inductive DRep
  | key (hash : KeyHash)
  | script (hash : ScriptHash)
  | abstain
  | noConfidence
  deriving DecidableEq

namespace DRep

def ofCredential : Credential → DRep
  | .key h => key h
  | .script h => script h

instance : Ranked DRep where
  rank
    | key h => 0 :: Ranked.rank h
    | script h => 1 :: Ranked.rank h
    | abstain => [2]
    | noConfidence => [3]
  rank_inj {a b} h := by
    cases a <;> cases b <;> simp_all
    all_goals exact Ranked.rank_inj h

def toItem : DRep → Cbor.Item
  | key h => .array 2 [.nat 0, h.toItem]
  | script h => .array 2 [.nat 1, h.toItem]
  | abstain => .array 1 [.nat 2]
  | noConfidence => .array 1 [.nat 3]

def keyHeader : UInt8 := 0x22

def scriptHeader : UInt8 := 0x23

/-- The credential in an id: a hash behind a header byte, or a bare hash whose prefix tells its
kind. -/
def credentialOfText (text : String) : Except Bech32Error Credential :=
  match Bech32.decode text with
  | .error e => .error e
  | .ok (hrp, data) =>
    if hrp = "drep" ∧ data.length = 29 then
      match data, Hash.ofBytes? (data.drop 1) with
      | header :: _, some h =>
        if header = keyHeader then .ok (.key h)
        else if header = scriptHeader then .ok (.script h)
        else .error (.unknownDRepHeader header)
      | _, _ => .error (.badLength data.length)
    else if hrp = "drep" ∨ hrp = "drep_script" then
      match Hash.ofBytes? data with
      | some h => .ok (if hrp = "drep" then .key h else .script h)
      | none => .error (.badLength data.length)
    else .error (.wrongPrefix "drep" hrp)

def ofText (text : String) : Except Bech32Error DRep := (credentialOfText text).map ofCredential

def textOfCredential (c : Credential) : Except Bech32Error String :=
  let header := if c.isScript then scriptHeader else keyHeader
  Bech32.encode "drep" (header :: c.hash.bytes)

end DRep

namespace PoolId

def toText (pool : PoolId) : Except Bech32Error String := Bech32.encode "pool" pool.bytes

def ofText (text : String) : Except Bech32Error PoolId :=
  match Bech32.decodeExpecting "pool" text with
  | .error e => .error e
  | .ok data =>
    match Hash.ofBytes? data with
    | some h => .ok h
    | none => .error (.badLength data.length)

end PoolId

end ConwayTx
