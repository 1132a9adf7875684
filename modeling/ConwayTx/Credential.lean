import ConwayTx.Cbor.Reader

namespace ConwayTx

inductive Network
  | testnet
  | mainnet
  deriving DecidableEq, Repr, Inhabited

namespace Network

def headerBits : Network → UInt8
  | testnet => 0
  | mainnet => 1

/-- Every tag but zero means the main network. -/
def ofHeader (header : UInt8) : Network :=
  if header.toNat % 16 = 0 then testnet else mainnet

def rank : Network → Nat
  | testnet => 0
  | mainnet => 1

@[simp] theorem rank_inj {a b : Network} : a.rank = b.rank ↔ a = b := by
  cases a <;> cases b <;> simp [rank]

end Network

namespace Hash

variable {width : Nat}

@[simp] theorem length_rank (h : Hash width) : (Ranked.rank h).length = width := by
  simp [Ranked.rank, h.length_bytes]

theorem rank_append_inj {a b : Hash width} {xs ys : List Nat}
    (h : Ranked.rank a ++ xs = Ranked.rank b ++ ys) : a = b ∧ xs = ys := by
  obtain ⟨front, back⟩ := List.append_inj h (by simp)
  exact ⟨Ranked.rank_inj front, back⟩

end Hash

inductive Credential
  | script (hash : ScriptHash)
  | key (hash : KeyHash)
  deriving DecidableEq

namespace Credential

def hash : Credential → Hash 28
  | script h => h
  | key h => h

def scriptHash? : Credential → Option ScriptHash
  | script h => some h
  | key _ => none

def keyHash? : Credential → Option KeyHash
  | script _ => none
  | key h => some h

def isScript (c : Credential) : Bool := c.scriptHash?.isSome

instance : Ranked Credential where
  rank
    | script h => 0 :: Ranked.rank h
    | key h => 1 :: Ranked.rank h
  rank_inj {a b} h := by
    cases a <;> cases b <;> simp_all
    all_goals exact Ranked.rank_inj h

def toItem : Credential → Cbor.Item
  | key h => .array 2 [.nat 0, h.toItem]
  | script h => .array 2 [.nat 1, h.toItem]

def read : Cbor.Reader Credential :=
  Cbor.Reader.arrayHeader.bind (fun _ =>
    Cbor.Reader.uint8.bind (fun kind =>
      match kind with
      | 0 => (Cbor.Reader.hash 28).map key
      | 1 => (Cbor.Reader.hash 28).map script
      | kind => Cbor.Reader.fail (.unknownCredential kind)))

end Credential

end ConwayTx
