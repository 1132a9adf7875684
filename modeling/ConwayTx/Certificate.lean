import ConwayTx.Address.Basic
import ConwayTx.Anchor

namespace ConwayTx

open Cbor (Item)

inductive Certificate
  | stakeRegistration (account : StakeAddress)
  | stakeDeregistration (account : StakeAddress)
  | stakeDelegation (account : StakeAddress) (pool : PoolId)
  | poolRetirement (pool : PoolId) (epoch : UInt64)
  | registration (account : StakeAddress) (deposit : UInt64)
  | deregistration (account : StakeAddress) (refund : UInt64)
  | voteDelegation (account : StakeAddress) (drep : DRep)
  | stakeAndVoteDelegation (account : StakeAddress) (pool : PoolId) (drep : DRep)
  | registrationAndStake (account : StakeAddress) (pool : PoolId) (deposit : UInt64)
  | registrationAndVote (account : StakeAddress) (drep : DRep) (deposit : UInt64)
  | registrationAndBoth (account : StakeAddress) (pool : PoolId) (drep : DRep) (deposit : UInt64)
  | authCommitteeHot (cold hot : Credential)
  | resignCommitteeCold (cold : Credential) (anchor : Option Anchor)
  | drepRegistration (credential : Credential) (deposit : UInt64) (anchor : Option Anchor)
  | drepDeregistration (credential : Credential) (refund : UInt64)
  | drepUpdate (credential : Credential) (anchor : Option Anchor)
  deriving DecidableEq

namespace Certificate

/-- What the certificate locks. The older registration locks the key deposit in force. -/
def deposit (keyDeposit : UInt64) : Certificate → UInt64
  | stakeRegistration _ => keyDeposit
  | registration _ d => d
  | registrationAndStake _ _ d => d
  | registrationAndVote _ _ d => d
  | registrationAndBoth _ _ _ d => d
  | drepRegistration _ d _ => d
  | _ => 0

def refund (keyDeposit : UInt64) : Certificate → UInt64
  | stakeDeregistration _ => keyDeposit
  | deregistration _ r => r
  | drepDeregistration _ r => r
  | _ => 0

/-- The credential that has to authorise the certificate; the older registration needs none. -/
def witness? : Certificate → Option Credential
  | stakeRegistration _ => none
  | stakeDeregistration a => some a.credential
  | stakeDelegation a _ => some a.credential
  | poolRetirement pool _ => some (.key pool)
  | registration a _ => some a.credential
  | deregistration a _ => some a.credential
  | voteDelegation a _ => some a.credential
  | stakeAndVoteDelegation a _ _ => some a.credential
  | registrationAndStake a _ _ => some a.credential
  | registrationAndVote a _ _ => some a.credential
  | registrationAndBoth a _ _ _ => some a.credential
  | authCommitteeHot cold _ => some cold
  | resignCommitteeCold cold _ => some cold
  | drepRegistration c _ _ => some c
  | drepDeregistration c _ => some c
  | drepUpdate c _ => some c

def scriptHash? (c : Certificate) : Option ScriptHash := c.witness?.bind Credential.scriptHash?

def anchorItem (a : Option Anchor) : Item := Item.option Anchor.toItem a

def toItem : Certificate → Item
  | stakeRegistration a => .array 2 [.nat 0, a.credential.toItem]
  | stakeDeregistration a => .array 2 [.nat 1, a.credential.toItem]
  | stakeDelegation a pool => .array 3 [.nat 2, a.credential.toItem, pool.toItem]
  | poolRetirement pool epoch => .array 3 [.nat 4, pool.toItem, .nat epoch]
  | registration a d => .array 3 [.nat 7, a.credential.toItem, .nat d]
  | deregistration a r => .array 3 [.nat 8, a.credential.toItem, .nat r]
  | voteDelegation a drep => .array 3 [.nat 9, a.credential.toItem, drep.toItem]
  | stakeAndVoteDelegation a pool drep =>
    .array 4 [.nat 10, a.credential.toItem, pool.toItem, drep.toItem]
  | registrationAndStake a pool d => .array 4 [.nat 11, a.credential.toItem, pool.toItem, .nat d]
  | registrationAndVote a drep d => .array 4 [.nat 12, a.credential.toItem, drep.toItem, .nat d]
  | registrationAndBoth a pool drep d =>
    .array 5 [.nat 13, a.credential.toItem, pool.toItem, drep.toItem, .nat d]
  | authCommitteeHot cold hot => .array 3 [.nat 14, cold.toItem, hot.toItem]
  | resignCommitteeCold cold anchor => .array 3 [.nat 15, cold.toItem, anchorItem anchor]
  | drepRegistration c d anchor => .array 4 [.nat 16, c.toItem, .nat d, anchorItem anchor]
  | drepDeregistration c r => .array 3 [.nat 17, c.toItem, .nat r]
  | drepUpdate c anchor => .array 3 [.nat 18, c.toItem, anchorItem anchor]

end Certificate

end ConwayTx
