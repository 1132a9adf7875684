import ConwayTx.Credential

namespace ConwayTx

structure Pointer where
  slot : UInt64
  txIndex : UInt64
  certIndex : UInt64
  deriving DecidableEq, Repr

inductive Delegation
  | none
  | stake (credential : Credential)
  | pointer (p : Pointer)
  deriving DecidableEq

structure ShelleyAddress where
  network : Network
  payment : Credential
  delegation : Delegation
  deriving DecidableEq

structure StakeAddress where
  network : Network
  credential : Credential
  deriving DecidableEq

inductive Address
  | none
  | byron (payload : Bytes)
  | shelley (address : ShelleyAddress)
  | stake (address : StakeAddress)
  deriving DecidableEq

namespace Pointer

def toBytes (p : Pointer) : Bytes := VarNat.encodeAll [p.slot, p.txIndex, p.certIndex]

/-- Three naturals; bytes after them are not looked at. -/
def ofBytes (bs : Bytes) : Except VarNat.Error Pointer := do
  let (slot, bs) ← VarNat.next bs
  let (txIndex, bs) ← VarNat.next bs
  let (certIndex, _) ← VarNat.next bs
  return ⟨slot, txIndex, certIndex⟩

end Pointer

def AddressError.hash28 (bs : Bytes) : Except AddressError (Hash 28) :=
  match Hash.ofBytes? bs with
  | some h => .ok h
  | Option.none => .error (.badLength bs.length)

namespace ShelleyAddress

def kind (a : ShelleyAddress) : UInt8 :=
  let payment : UInt8 := if a.payment.isScript then 1 else 0
  let delegation : UInt8 :=
    match a.delegation with
    | .stake (.key _) => 0
    | .stake (.script _) => 2
    | .pointer _ => 4
    | .none => 6
  payment + delegation

def delegationBytes (a : ShelleyAddress) : Bytes :=
  match a.delegation with
  | .stake c => c.hash.bytes
  | .pointer p => p.toBytes
  | .none => []

def toBytes (a : ShelleyAddress) : Bytes :=
  (a.kind * 16 + a.network.headerBits) :: (a.payment.hash.bytes ++ a.delegationBytes)

/-- What the bytes after the payment hash mean, in an address of `length` bytes. -/
def readDelegation (kind : Nat) (length : Nat) (rest : Bytes) : Except AddressError Delegation :=
  match kind / 2 with
  | 0 =>
    if rest.length ≠ 28 then .error (.badLength length)
    else (AddressError.hash28 rest).map (fun h => .stake (.key h))
  | 1 =>
    if rest.length ≠ 28 then .error (.badLength length)
    else (AddressError.hash28 rest).map (fun h => .stake (.script h))
  | 2 =>
    match Pointer.ofBytes rest with
    | .ok p => .ok (.pointer p)
    | .error e => .error (.badPointer e)
  | _ => if rest.isEmpty then .ok .none else .error (.badLength length)

def ofBytes (bs : Bytes) : Except AddressError ShelleyAddress :=
  match bs with
  | [] => .error .empty
  | header :: body =>
    let kind := header.toNat / 16
    if kind > 7 then .error (.unknownHeader header)
    else if bs.length < 29 then .error (.badLength bs.length)
    else do
      let h ← AddressError.hash28 (body.take 28)
      let delegation ← readDelegation kind bs.length (body.drop 28)
      let payment := if kind % 2 = 0 then Credential.key h else Credential.script h
      return ⟨Network.ofHeader header, payment, delegation⟩

def stakeCredential? (a : ShelleyAddress) : Option Credential :=
  match a.delegation with
  | .stake c => some c
  | _ => Option.none

end ShelleyAddress

namespace StakeAddress

def toBytes (a : StakeAddress) : Bytes :=
  let kind : UInt8 := if a.credential.isScript then 0xf0 else 0xe0
  (kind + a.network.headerBits) :: a.credential.hash.bytes

def ofBytes (bs : Bytes) : Except AddressError StakeAddress :=
  match bs with
  | [] => .error .empty
  | header :: body =>
    if bs.length ≠ 29 then .error (.badLength bs.length)
    else do
      let h ← AddressError.hash28 body
      match header.toNat / 16 with
      | 14 => return ⟨Network.ofHeader header, .key h⟩
      | 15 => return ⟨Network.ofHeader header, .script h⟩
      | _ => .error (.unknownHeader header)

instance : Ranked StakeAddress where
  rank a := a.network.rank :: Ranked.rank a.credential
  rank_inj {a b} h := by
    obtain ⟨h₁, h₂⟩ := List.cons.inj h
    have := Ranked.rank_inj h₂
    cases a
    cases b
    simp_all

def toItem (a : StakeAddress) : Cbor.Item := .bytes a.toBytes

def read : Cbor.Reader StakeAddress :=
  Cbor.Reader.bytes.check (fun bs =>
    match ofBytes bs with
    | .ok a => .ok a
    | .error e => .error (.stakeAddress e))

end StakeAddress

namespace Address

def toBytes : Address → Bytes
  | none => []
  | byron payload => payload
  | shelley a => a.toBytes
  | stake a => a.toBytes

def ofBytes (bs : Bytes) : Except AddressError Address :=
  match bs with
  | [] => .error .empty
  | header :: _ =>
    let kind := header.toNat / 16
    if kind ≤ 7 then (ShelleyAddress.ofBytes bs).map shelley
    else if kind = 8 then .ok (byron bs)
    else if kind = 14 ∨ kind = 15 then (StakeAddress.ofBytes bs).map stake
    else .error (.unknownHeader header)

def paymentCredential? : Address → Option Credential
  | shelley a => some a.payment
  | _ => Option.none

def scriptHash? (a : Address) : Option ScriptHash :=
  a.paymentCredential?.bind Credential.scriptHash?

def isScript (a : Address) : Bool := a.scriptHash?.isSome

def network? : Address → Option Network
  | shelley a => some a.network
  | stake a => some a.network
  | _ => Option.none

def toItem (a : Address) : Cbor.Item := .bytes a.toBytes

def read : Cbor.Reader Address :=
  Cbor.Reader.bytes.check (fun bs =>
    match ofBytes bs with
    | .ok a => .ok a
    | .error e => .error (.address e))

end Address

end ConwayTx
