import ConwayTx.Address.Basic
import ConwayTx.Anchor

namespace ConwayTx

open Cbor (Item)

inductive Voter
  | committee (hot : Credential)
  | drep (credential : Credential)
  | pool (id : PoolId)
  deriving DecidableEq

namespace Voter

def credential : Voter → Credential
  | committee c => c
  | drep c => c
  | pool id => .key id

def scriptHash? (v : Voter) : Option ScriptHash := v.credential.scriptHash?

def toText : Voter → String
  | committee c => s!"cc:{c.hash.toHex}"
  | drep c => s!"drep:{c.hash.toHex}"
  | pool id => s!"pool:{id.toHex}"

instance : Ranked Voter where
  rank
    | committee c => 0 :: Ranked.rank c
    | drep c => 1 :: Ranked.rank c
    | pool id => 2 :: Ranked.rank id
  rank_inj {a b} h := by
    cases a <;> cases b <;> simp_all
    all_goals exact Ranked.rank_inj h

def toItem : Voter → Item
  | committee (.key h) => .array 2 [.nat 0, h.toItem]
  | committee (.script h) => .array 2 [.nat 1, h.toItem]
  | drep (.key h) => .array 2 [.nat 2, h.toItem]
  | drep (.script h) => .array 2 [.nat 3, h.toItem]
  | pool id => .array 2 [.nat 4, id.toItem]

end Voter

inductive Vote
  | no
  | yes
  | abstain
  deriving DecidableEq, Repr

def Vote.toItem : Vote → Item
  | no => .nat 0
  | yes => .nat 1
  | abstain => .nat 2

structure VotingProcedure where
  vote : Vote
  anchor : Option Anchor
  deriving DecidableEq

def VotingProcedure.toItem (p : VotingProcedure) : Item :=
  .array 2 [p.vote.toItem, Item.option Anchor.toItem p.anchor]

structure GovActionId where
  transaction : TxHash
  index : UInt16
  deriving DecidableEq

namespace GovActionId

def toText (id : GovActionId) : String := s!"{id.transaction.toHex}#{id.index}"

instance : Ranked GovActionId where
  rank id := Ranked.rank id.transaction ++ [id.index.toNat]
  rank_inj {a b} h := by
    obtain ⟨h₁, h₂⟩ := Hash.rank_append_inj h
    cases a
    cases b
    simp_all [UInt16.toNat_inj]

def toItem (id : GovActionId) : Item := .array 2 [id.transaction.toItem, .ofNat id.index.toNat]

end GovActionId

abbrev Votes := OrdMap Voter (OrdMap GovActionId VotingProcedure)

namespace Votes

def toItem (vs : Votes) : Item :=
  .map vs.size (vs.toList.map (fun v =>
    (v.1.toItem, .map v.2.size (v.2.toList.map (fun a => (a.1.toItem, a.2.toItem))))))

end Votes

inductive GovAction
  | treasuryWithdrawals (withdrawals : OrdMap StakeAddress UInt64) (policy : Option ScriptHash)
  | noConfidence (previous : Option GovActionId)
  | info
  deriving DecidableEq

namespace GovAction

def policy? : GovAction → Option ScriptHash
  | treasuryWithdrawals _ policy => policy
  | _ => none

def toItem : GovAction → Item
  | treasuryWithdrawals ws policy =>
    .array 3 [.nat 2, .map ws.size (ws.toList.map (fun w => (w.1.toItem, .nat w.2))),
      Item.option Hash.toItem policy]
  | noConfidence previous => .array 2 [.nat 3, Item.option GovActionId.toItem previous]
  | info => .array 1 [.nat 6]

end GovAction

structure Proposal where
  deposit : UInt64
  returnAccount : StakeAddress
  action : GovAction
  anchor : Anchor
  deriving DecidableEq

def Proposal.toItem (p : Proposal) : Item :=
  .array 4 [.nat p.deposit, p.returnAccount.toItem, p.action.toItem, p.anchor.toItem]

end ConwayTx
