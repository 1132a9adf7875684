import ConwayTx.Credential

namespace ConwayTx

inductive AssetError
  | hex (e : HexError)
  | nameTooLong
  | shortId (length : Nat)
  deriving DecidableEq, Repr

def AssetError.message : AssetError → String
  | .hex e => e.message
  | .nameTooLong => "asset name longer than 32 bytes"
  | .shortId length => s!"asset id shorter than a policy id: {length} bytes"

structure AssetName where
  bytes : Bytes
  length_le : bytes.length ≤ 32
  deriving DecidableEq

namespace AssetName

def ofBytes? (bs : Bytes) : Option AssetName :=
  if h : bs.length ≤ 32 then some ⟨bs, h⟩ else none

def toHex (n : AssetName) : String := Hex.encode n.bytes

def ofHex (text : String) : Except AssetError AssetName :=
  match Hex.decode text with
  | .error e => .error (.hex e)
  | .ok bs =>
    match ofBytes? bs with
    | some n => .ok n
    | none => .error .nameTooLong

def describe (n : AssetName) : String := s!"AssetName({n.toHex})"

instance : Ranked AssetName where
  rank n := Ranked.rank n.bytes
  rank_inj {a b} h := by
    cases a
    cases b
    simp only [AssetName.mk.injEq]
    exact Ranked.rank_inj h

def toItem (n : AssetName) : Cbor.Item := .bytes n.bytes

def read : Cbor.Reader AssetName :=
  Cbor.Reader.bytes.check (fun bs =>
    match ofBytes? bs with
    | some n => .ok n
    | none => .error .assetNameTooLong)

end AssetName

structure AssetId where
  policy : PolicyId
  name : AssetName
  deriving DecidableEq

namespace AssetId

def toHex (id : AssetId) : String := id.policy.toHex ++ id.name.toHex

def ofBytes (bs : Bytes) : Except AssetError AssetId :=
  if bs.length < 28 then .error (.shortId bs.length)
  else
    match Hash.ofBytes? (bs.take 28), AssetName.ofBytes? (bs.drop 28) with
    | some policy, some name => .ok ⟨policy, name⟩
    | _, _ => .error .nameTooLong

def ofHex (text : String) : Except AssetError AssetId :=
  match Hex.decode text with
  | .error e => .error (.hex e)
  | .ok bs => ofBytes bs

instance : Ranked AssetId where
  rank id := Ranked.rank id.policy ++ Ranked.rank id.name
  rank_inj {a b} h := by
    obtain ⟨h₁, h₂⟩ := Hash.rank_append_inj h
    cases a
    cases b
    simp_all only [AssetId.mk.injEq, true_and]
    exact Ranked.rank_inj h₂

end AssetId

end ConwayTx
