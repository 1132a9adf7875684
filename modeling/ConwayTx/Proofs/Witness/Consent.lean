import ConwayTx.Proofs.Balance.FeeCoverage
import ConwayTx.Proofs.Witness.Satisfiable
/-!
Whose consent an action takes, by what it is done to. The guards of a transaction, what a draft does
and the keys that have to sign are told from this alone.
-/

namespace ConwayTx

namespace Credential

variable {c : Credential}

theorem scriptHash?_eq_some_iff {h : ScriptHash} : c.scriptHash? = some h ↔ c = .script h := by
  cases c <;> simp [scriptHash?]

theorem keyHash?_eq_some_iff {k : KeyHash} : c.keyHash? = some k ↔ c = .key k := by
  cases c <;> simp [keyHash?]

end Credential

inductive Certificate.About : Certificate → Credential → Prop
  | stakeRegistration (a : StakeAddress) : About (.stakeRegistration a) a.credential
  | stakeDeregistration (a : StakeAddress) : About (.stakeDeregistration a) a.credential
  | stakeDelegation (a : StakeAddress) (pool : PoolId) :
    About (.stakeDelegation a pool) a.credential
  | poolRetirement (pool : PoolId) (epoch : UInt64) :
    About (.poolRetirement pool epoch) (.key pool)
  | registration (a : StakeAddress) (deposit : UInt64) :
    About (.registration a deposit) a.credential
  | deregistration (a : StakeAddress) (refund : UInt64) :
    About (.deregistration a refund) a.credential
  | voteDelegation (a : StakeAddress) (drep : DRep) : About (.voteDelegation a drep) a.credential
  | stakeAndVoteDelegation (a : StakeAddress) (pool : PoolId) (drep : DRep) :
    About (.stakeAndVoteDelegation a pool drep) a.credential
  | registrationAndStake (a : StakeAddress) (pool : PoolId) (deposit : UInt64) :
    About (.registrationAndStake a pool deposit) a.credential
  | registrationAndVote (a : StakeAddress) (drep : DRep) (deposit : UInt64) :
    About (.registrationAndVote a drep deposit) a.credential
  | registrationAndBoth (a : StakeAddress) (pool : PoolId) (drep : DRep) (deposit : UInt64) :
    About (.registrationAndBoth a pool drep deposit) a.credential
  | authCommitteeHot (cold hot : Credential) : About (.authCommitteeHot cold hot) cold
  | resignCommitteeCold (cold : Credential) (anchor : Option Anchor) :
    About (.resignCommitteeCold cold anchor) cold
  | drepRegistration (c : Credential) (deposit : UInt64) (anchor : Option Anchor) :
    About (.drepRegistration c deposit anchor) c
  | drepDeregistration (c : Credential) (refund : UInt64) : About (.drepDeregistration c refund) c
  | drepUpdate (c : Credential) (anchor : Option Anchor) : About (.drepUpdate c anchor) c

theorem Certificate.witness?_eq_some_iff {c : Certificate} {who : Credential} :
    c.witness? = some who ↔ c.About who ∧ ∀ a, c ≠ .stakeRegistration a := by
  constructor
  · intro asked
    cases c <;> cases asked
    all_goals exact ⟨by constructor, nofun⟩
  · rintro ⟨about, newer⟩
    cases about with
    | stakeRegistration a => exact absurd rfl (newer a)
    | _ => rfl

inductive Subject
  | output (o : TxOut)
  | policy (id : PolicyId)
  | certificate (c : Certificate)
  | account (a : StakeAddress)
  | voter (v : Voter)
  | proposed (action : GovAction)

namespace Subject

/-- Whose consent it takes. Nobody has to agree to an older registration, to a proposal without a
guardrail, or to what is spent from an address that has no credential. -/
inductive Consent : Subject → Credential → Prop
  | output {o : TxOut} {a : ShelleyAddress} (here : o.address = .shelley a) :
    Consent (.output o) a.payment
  | policy (id : PolicyId) : Consent (.policy id) (.script id)
  | certificate {c : Certificate} {who : Credential} (about : c.About who)
    (newer : ∀ a, c ≠ .stakeRegistration a) : Consent (.certificate c) who
  | account (a : StakeAddress) : Consent (.account a) a.credential
  | committee (hot : Credential) : Consent (.voter (.committee hot)) hot
  | drep (c : Credential) : Consent (.voter (.drep c)) c
  | pool (id : PoolId) : Consent (.voter (.pool id)) (.key id)
  | guardrail (ws : OrdMap StakeAddress UInt64) (h : ScriptHash) :
    Consent (.proposed (.treasuryWithdrawals ws (some h))) (.script h)

def credential? : Subject → Option Credential
  | output o => o.address.paymentCredential?
  | policy id => some (.script id)
  | certificate c => c.witness?
  | account a => some a.credential
  | voter v => some v.credential
  | proposed action => action.policy?.map .script

variable {s : Subject}

theorem credential?_eq_some_iff {who : Credential} :
    s.credential? = some who ↔ s.Consent who := by
  constructor
  · intro asked
    cases s with
    | output o =>
      cases here : o.address with
      | shelley a =>
        rw [credential?, here] at asked
        cases asked
        exact .output here
      | _ =>
        rw [credential?, here] at asked
        cases asked
    | policy id =>
      cases asked
      exact .policy id
    | certificate c =>
      obtain ⟨about, newer⟩ := Certificate.witness?_eq_some_iff.mp asked
      exact .certificate about newer
    | account a =>
      cases asked
      exact .account a
    | voter v => cases v <;> cases asked <;> constructor
    | proposed action =>
      obtain ⟨h, guarded, rfl⟩ := Option.map_eq_some_iff.mp asked
      cases action <;> cases guarded
      exact .guardrail _ h
  · intro consent
    cases consent with
    | output here => rw [credential?, here, Address.paymentCredential?]
    | certificate about newer => exact Certificate.witness?_eq_some_iff.mpr ⟨about, newer⟩
    | _ => rfl

def scriptHash? (s : Subject) : Option ScriptHash := s.credential?.bind Credential.scriptHash?

theorem scriptHash?_eq_some_iff {h : ScriptHash} :
    s.scriptHash? = some h ↔ s.Consent (.script h) := by
  rw [← credential?_eq_some_iff, scriptHash?, Option.bind_eq_some_iff]
  simp only [Credential.scriptHash?_eq_some_iff, exists_eq_right]

theorem eq_scriptHash?_iff {script : Option ScriptHash} :
    script = s.scriptHash? ↔ ∀ h, script = some h ↔ s.Consent (.script h) := by
  simp only [← scriptHash?_eq_some_iff]
  exact Option.ext_iff

theorem keyHash?_eq_some_iff {k : KeyHash} :
    s.credential?.bind Credential.keyHash? = some k ↔ s.Consent (.key k) := by
  rw [← credential?_eq_some_iff, Option.bind_eq_some_iff]
  simp only [Credential.keyHash?_eq_some_iff, exists_eq_right]

theorem scriptHash?_proposed (action : GovAction) :
    (proposed action).scriptHash? = action.policy? := by
  rw [scriptHash?, credential?]
  cases action.policy? <;> rfl

end Subject

namespace Tx

variable {tx : Tx} {spent collateral : List Utxo}

def subjects (tx : Tx) (spent : List Utxo) : Purpose → List Subject
  | .spend => spent.map (fun u => .output u.output)
  | .mint => tx.body.mint.keys.map .policy
  | .cert => tx.body.certificates.map .certificate
  | .reward => tx.body.withdrawals.keys.map .account
  | .vote => tx.body.votes.keys.map .voter
  | .propose => tx.body.proposals.map (fun p => .proposed p.action)

theorem guards_eq (purpose : Purpose) :
    tx.guards spent purpose = (tx.subjects spent purpose).map Subject.scriptHash? := by
  cases purpose <;> rw [guards, subjects, List.map_map]
  case propose => exact List.map_congr_left fun p _ => (Subject.scriptHash?_proposed p.action).symm
  all_goals rfl

/-- The guards are, one by one, the scripts whose consent the actions take. -/
theorem guards_consent (purpose : Purpose) :
    List.Forall₂ (fun (s : Subject) guard => ∀ h, guard = some h ↔ s.Consent (.script h))
      (tx.subjects spent purpose) (tx.guards spent purpose) := by
  rw [guards_eq, List.forall₂_map_right_iff, List.forall₂_same]
  exact fun s _ => Subject.eq_scriptHash?_iff.mp rfl

theorem exists_consent_key_iff {k : KeyHash} :
    (∃ purpose, ∃ s ∈ tx.subjects spent purpose, s.Consent (.key k)) ↔
      (∃ u ∈ spent, u.output.address.paymentCredential?.bind Credential.keyHash? = some k) ∨
      (∃ c ∈ tx.body.certificates, c.witness?.bind Credential.keyHash? = some k) ∨
      (∃ account ∈ tx.body.withdrawals.keys, account.credential.keyHash? = some k) ∨
      ∃ voter ∈ tx.body.votes.keys, voter.credential.keyHash? = some k := by
  simp only [← Subject.keyHash?_eq_some_iff]
  constructor
  · rintro ⟨purpose, s, mem, key⟩
    cases purpose <;> obtain ⟨x, there, rfl⟩ := List.mem_map.mp mem
    case spend => exact .inl ⟨x, there, key⟩
    case mint => cases key
    case cert => exact .inr (.inl ⟨x, there, key⟩)
    case reward => exact .inr (.inr (.inl ⟨x, there, key⟩))
    case vote => exact .inr (.inr (.inr ⟨x, there, key⟩))
    case propose =>
      obtain ⟨who, asked, key⟩ := Option.bind_eq_some_iff.mp key
      obtain ⟨h, _, rfl⟩ := Option.map_eq_some_iff.mp asked
      cases key
  · rintro (⟨u, mem, key⟩ | ⟨c, mem, key⟩ | ⟨account, mem, key⟩ | ⟨voter, mem, key⟩)
    · exact ⟨.spend, _, List.mem_map_of_mem mem, key⟩
    · exact ⟨.cert, _, List.mem_map_of_mem mem, key⟩
    · exact ⟨.reward, _, List.mem_map_of_mem mem, key⟩
    · exact ⟨.vote, _, List.mem_map_of_mem mem, key⟩

/-- The keys that have to sign are those whose consent the actions take, spending collateral among
them, beside the required signers and the keys in native scripts. -/
theorem mem_neededKeys_iff {d : Draft} {k : KeyHash} :
    k ∈ tx.neededKeys d spent collateral ↔
      k ∈ tx.body.requiredSigners.keys ∨
      (∃ purpose, ∃ s ∈ tx.subjects (spent ++ collateral) purpose, s.Consent (.key k)) ∨
      k ∈ Draft.mentionedKeys ((Purpose.all.flatMap (tx.guards spent)).filterMap
        (fun guard => guard.bind (d.scriptFor spent))) ∨
      ∃ n ∈ tx.witnesses.native, k ∈ n.keysIn := by
  rw [exists_consent_key_iff]
  simp only [neededKeys, List.mem_append, List.mem_filterMap, List.mem_flatMap, or_assoc]

end Tx

namespace Draft

variable {d : Draft} {inputs : List Utxo}

inductive ActsOn (d : Draft) (inputs : List Utxo) : Subject → Option PlutusData → Prop
  | spends {u : Utxo} : u ∈ inputs →
    ActsOn d inputs (.output u.output) ((d.inputs.get? u.ref).bind Pinned.redeemer)
  | mints {policy : PolicyId} : policy ∈ d.mint.keys →
    ActsOn d inputs (.policy policy) (d.mintRedeemers.get? policy)
  | certifies {c : Guarded Certificate} : c ∈ d.certificates →
    ActsOn d inputs (.certificate c.action) c.redeemer
  | withdraws {account : StakeAddress} {w : Guarded UInt64} :
    d.withdrawals.get? account = some w → ActsOn d inputs (.account account) w.redeemer
  | votes {voter : Voter} : voter ∈ d.votes.keys →
    ActsOn d inputs (.voter voter) (d.voteRedeemers.get? voter)
  | proposes {p : Guarded Proposal} : p ∈ d.proposals →
    ActsOn d inputs (.proposed p.action.action) p.redeemer

theorem acts_iff_actsOn {script : Option ScriptHash} {redeemer : Option PlutusData} :
    d.Acts inputs script redeemer ↔
      ∃ s, d.ActsOn inputs s redeemer ∧ ∀ h, script = some h ↔ s.Consent (.script h) := by
  simp only [← Subject.eq_scriptHash?_iff]
  constructor
  · intro acts
    cases acts with
    | spends mem => exact ⟨_, .spends mem, rfl⟩
    | mints mem => exact ⟨_, .mints mem, rfl⟩
    | certifies mem => exact ⟨_, .certifies mem, rfl⟩
    | withdraws found => exact ⟨_, .withdraws found, rfl⟩
    | votes mem => exact ⟨_, .votes mem, rfl⟩
    | proposes mem => exact ⟨_, .proposes mem, (Subject.scriptHash?_proposed _).symm⟩
  · rintro ⟨s, acts, rfl⟩
    cases acts with
    | spends mem => exact .spends mem
    | mints mem => exact .mints mem
    | certifies mem => exact .certifies mem
    | withdraws found => exact .withdraws found
    | votes mem => exact .votes mem
    | proposes mem =>
      rw [Subject.scriptHash?_proposed]
      exact .proposes mem

end Draft

end ConwayTx
