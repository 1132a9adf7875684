import ConwayTx.Proofs.Session
import Mathlib.Algebra.Ring.Int.Defs
/-!
What a draft mints, told from the calls that led to it. A call is accepted if it asks for something
and keeps its asset in range, and a rejected one leaves no trace. The draft has the sums of what was
accepted, and for each policy the redeemer that was given last while the policy had assets.
-/

namespace ConwayTx

namespace Mint

def at? (m : Mint) (id : AssetId) : Option Int64 := (m.get? id.policy).bind (·.get? id.name)

def Named (m : Mint) : Prop := ∀ policy names, m.get? policy = some names → names.isEmpty = false

variable {m : Mint}

theorem quantity_eq_getD (m : Mint) (id : AssetId) :
    m.quantity id.policy id.name = (m.at? id).getD 0 := rfl

theorem Named.mem_keys_iff (named : m.Named) {policy : PolicyId} :
    policy ∈ m.keys ↔ ∃ name q, m.at? ⟨policy, name⟩ = some q := by
  rw [OrdMap.mem_keys_iff]
  constructor
  · rintro ⟨names, found⟩
    obtain ⟨name, q, held⟩ := OrdMap.isEmpty_eq_false_iff.mp (named policy names found)
    exact ⟨name, q, Option.bind_eq_some_iff.mpr ⟨names, found, held⟩⟩
  · rintro ⟨name, q, held⟩
    obtain ⟨names, found, _⟩ := Option.bind_eq_some_iff.mp held
    exact ⟨names, found⟩

end Mint

namespace Draft

variable {d d' : Draft} {id : AssetId} {amount sum : Int64} {redeemer : Option PlutusData}

theorem get?_setMinted (names : OrdMap AssetName Int64) (name other : AssetName) (sum : Int64) :
    (setMinted names name sum).get? other =
      if name = other then (if sum = 0 then none else some sum) else names.get? other := by
  unfold setMinted
  split <;> simp [OrdMap.get?_insert]

def namesWith (d : Draft) (id : AssetId) (sum : Int64) : OrdMap AssetName Int64 :=
  setMinted ((d.mint.get? id.policy).getD ∅) id.name sum

theorem get?_namesWith (d : Draft) (id : AssetId) (sum : Int64) (name : AssetName) :
    (d.namesWith id sum).get? name =
      if id.name = name then (if sum = 0 then none else some sum)
      else d.mint.at? ⟨id.policy, name⟩ := by
  rw [namesWith, get?_setMinted, Mint.at?]
  cases d.mint.get? id.policy <;> rfl

structure Minted (d : Draft) (id : AssetId) (sum : Int64) (redeemer : Option PlutusData)
    (d' : Draft) : Prop where
  mint : ∀ policy, d'.mint.get? policy =
    if id.policy = policy then (some (d.namesWith id sum)).filter (!·.isEmpty)
    else d.mint.get? policy
  redeemers : ∀ policy, d'.mintRedeemers.get? policy =
    if id.policy = policy then
      if id.policy ∈ d'.mint.keys then redeemer.or (d.mintRedeemers.get? policy) else none
    else d.mintRedeemers.get? policy

theorem exists_minted (nonzero : amount ≠ 0)
    (added : (d.mint.quantity id.policy id.name).checkedAdd amount = some sum) :
    ∃ d', d.addMint id.policy id.name amount redeemer = .ok d' ∧ d.Minted id sum redeemer d' := by
  unfold addMint
  simp only [nonzero, if_false, added]
  -- The policy goes or stays as a whole, by whether it still has a name.
  change ∃ d', (if (d.namesWith id sum).isEmpty = true then _ else _) = Except.ok d' ∧ _
  by_cases empty : (d.namesWith id sum).isEmpty = true
  · rw [if_pos empty]
    refine ⟨_, rfl, fun policy => ?_, fun policy => ?_⟩
    · simp [Option.filter_some, empty]
    · simp [OrdMap.mem_keys_iff]
  · rw [if_neg empty]
    refine ⟨_, rfl, fun policy => ?_, fun policy => ?_⟩
    · change (d.mint.insert id.policy (d.namesWith id sum)).get? policy = _
      simp [Option.filter_some, empty, OrdMap.get?_insert]
    · cases redeemer <;> simp [OrdMap.mem_keys_insert, OrdMap.get?_insert]

namespace Minted

theorem at?_eq (h : d.Minted id sum redeemer d') (other : AssetId) : d'.mint.at? other =
    if other = id then (if sum = 0 then none else some sum) else d.mint.at? other := by
  obtain ⟨policy, name⟩ := other
  by_cases same : id.policy = policy
  · subst same
    have whole : (⟨id.policy, name⟩ : AssetId) = id ↔ id.name = name := by
      cases id
      simp [eq_comm]
    simp only [whole, ← get?_namesWith]
    rw [Mint.at?, h.mint, if_pos rfl]
    by_cases empty : (d.namesWith id sum).isEmpty = true
    · simp [Option.filter_some, empty, OrdMap.isEmpty_iff.mp empty]
    · simp [Option.filter_some, empty]
  · have ne : (⟨policy, name⟩ : AssetId) ≠ id := fun eq => same (eq ▸ rfl)
    rw [if_neg ne, Mint.at?, h.mint, if_neg same, Mint.at?]

theorem named (h : d.Minted id sum redeemer d') (named : d.mint.Named) : d'.mint.Named := by
  intro policy names found
  rw [h.mint] at found
  split at found
  · simpa using (Option.filter_eq_some_iff.mp found).2
  · exact named policy names found

end Minted

end Draft

structure Minting where
  asset : AssetId
  amount : Int64
  redeemer : Option PlutusData := none

namespace Minting

def steps (m : Minting) : Steps Unit :=
  Steps.addMint m.asset.policy m.asset.name m.amount m.redeemer

def leaves (m : Minting) (w : Work) : Work :=
  match m.steps w with
  | .ok _ w' | .error _ w' => w'

def leavesAll (ms : List Minting) (w : Work) : Work := ms.foldl (fun w m => m.leaves w) w

def total (ms : List Minting) (id : AssetId) : Int :=
  ((ms.filter (·.asset = id)).map (·.amount.toInt)).sum

def InRange (n : Int) : Prop := -2 ^ 63 ≤ n ∧ n < 2 ^ 63

instance (n : Int) : Decidable (InRange n) := inferInstanceAs (Decidable (_ ∧ _))

def Fits (past : List Minting) (m : Minting) : Prop :=
  m.amount ≠ 0 ∧ InRange (total past m.asset + m.amount.toInt)

instance (past : List Minting) (m : Minting) : Decidable (Fits past m) :=
  inferInstanceAs (Decidable (_ ∧ _))

def accepted (ms : List Minting) : List Minting :=
  ms.foldl (fun past m => if Fits past m then past ++ [m] else past) []

def Holds (past : List Minting) (policy : PolicyId) : Prop :=
  ∃ name, total past ⟨policy, name⟩ ≠ 0

def Attached (past : List Minting) (policy : PolicyId) (data : PlutusData) : Prop :=
  ∃ before m after, past = before ++ m :: after ∧ m.asset.policy = policy ∧
    m.redeemer = some data ∧ (∀ n ∈ after, n.asset.policy = policy → n.redeemer = none) ∧
    ∀ front, front <+: after → Holds (before ++ m :: front) policy

variable {past : List Minting} {m : Minting} {policy : PolicyId} {data : PlutusData}

theorem total_concat (past : List Minting) (m : Minting) (id : AssetId) :
    total (past ++ [m]) id = total past id + if m.asset = id then m.amount.toInt else 0 := by
  by_cases same : m.asset = id <;> simp [total, List.filter_append, same]

theorem holds_concat_of_ne (other : m.asset.policy ≠ policy) :
    Holds (past ++ [m]) policy ↔ Holds past policy := by
  have apart (name : AssetName) : m.asset ≠ ⟨policy, name⟩ := fun same => other (same ▸ rfl)
  simp only [Holds, total_concat, apart, if_false, Int.add_zero]

theorem Attached.holds (h : Attached past policy data) : Holds past policy := by
  obtain ⟨before, m, after, rfl, _, _, _, held⟩ := h
  exact held after (List.prefix_refl after)

theorem attached_concat_iff : Attached (past ++ [m]) policy data ↔
    Holds (past ++ [m]) policy ∧ (m.asset.policy = policy ∧ m.redeemer = some data ∨
      (m.asset.policy = policy → m.redeemer = none) ∧ Attached past policy data) := by
  constructor
  · intro h
    refine ⟨h.holds, ?_⟩
    -- It was given by this very call, or before it and then not by this one.
    obtain ⟨before, n, after, split, of, given, last, held⟩ := h
    rcases List.eq_nil_or_concat' after with rfl | ⟨after, m', rfl⟩
    · obtain ⟨rfl, same⟩ := List.append_inj' split rfl
      obtain rfl := List.singleton_inj.mp same
      exact .inl ⟨of, given⟩
    · rw [← List.cons_append, ← List.append_assoc] at split
      obtain ⟨rfl, same⟩ := List.append_inj' split rfl
      obtain rfl := List.singleton_inj.mp same
      refine .inr ⟨last m (by simp), before, n, after, rfl, of, given, ?_, ?_⟩
      · exact fun k mem => last k (List.mem_append_left _ mem)
      · exact fun front h => held front (h.trans (List.prefix_append _ _))
  · rintro ⟨now, ⟨of, given⟩ | ⟨none, before, n, after, rfl, of, given, last, held⟩⟩
    · refine ⟨past, m, [], rfl, of, given, by simp, fun front h => ?_⟩
      rwa [List.prefix_nil.mp h]
    · refine ⟨before, n, after ++ [m], by simp, of, given, ?_, fun front h => ?_⟩
      · exact List.forall_mem_append.mpr ⟨last, List.forall_mem_singleton.mpr none⟩
      · rcases List.prefix_concat_iff.mp h with rfl | earlier
        · simpa using now
        · exact held front earlier

theorem checkedAdd_eq_none_iff {a b : Int64} :
    a.checkedAdd b = none ↔ ¬ InRange (a.toInt + b.toInt) := by
  unfold Int64.checkedAdd Int64.ofInt? Int64.largest InRange
  split <;> simp <;> omega

structure SumsUp (past : List Minting) (mint : Mint) : Prop where
  amounts : ∀ id, (mint.at? id).map Int64.toInt =
    if total past id = 0 then none else some (total past id)
  named : mint.Named

namespace SumsUp

variable {mint : Mint} (h : SumsUp past mint)
include h

theorem toInt_quantity (id : AssetId) :
    (mint.quantity id.policy id.name).toInt = total past id := by
  have amount := h.amounts id
  rw [Mint.quantity_eq_getD]
  cases held : mint.at? id with
  | none =>
    rw [held] at amount
    by_cases zero : total past id = 0
    · rw [zero]
      rfl
    · simp [zero] at amount
  | some q =>
    rw [held] at amount
    by_cases zero : total past id = 0
    · simp [zero] at amount
    · simpa [zero] using amount

theorem mem_keys_iff : policy ∈ mint.keys ↔ Holds past policy := by
  rw [h.named.mem_keys_iff]
  apply exists_congr
  intro name
  have amount := congrArg Option.isSome (h.amounts ⟨policy, name⟩)
  rw [Option.isSome_map, Bool.eq_iff_iff, Option.isSome_iff_exists] at amount
  rw [amount]
  split <;> simp [*]

theorem checkedAdd_eq_none_iff : (mint.quantity m.asset.policy m.asset.name).checkedAdd m.amount =
    none ↔ ¬ InRange (total past m.asset + m.amount.toInt) := by
  rw [Minting.checkedAdd_eq_none_iff, h.toInt_quantity]

end SumsUp

/-- A draft that has what the accepted calls sum up to, and the redeemers that they attached. -/
structure Follows (past : List Minting) (d : Draft) : Prop extends SumsUp past d.mint where
  redeemers : ∀ policy data,
    d.mintRedeemers.get? policy = some data ↔ Attached past policy data

namespace Follows

variable {d d' : Draft} {sum : Int64} (h : Follows past d)
include h

theorem exists_error (refused : ¬ Fits past m) : ∃ e,
    d.addMint m.asset.policy m.asset.name m.amount m.redeemer = .error e := by
  unfold Draft.addMint
  by_cases zero : m.amount = 0
  · exact ⟨.zeroMint, if_pos zero⟩
  · have beyond := h.checkedAdd_eq_none_iff.mpr fun range => refused ⟨zero, range⟩
    simp only [zero, if_false, beyond]
    exact ⟨_, rfl⟩

theorem sumsUp_concat (minted : d.Minted m.asset sum m.redeemer d')
    (sum_eq : sum.toInt = total past m.asset + m.amount.toInt) :
    SumsUp (past ++ [m]) d'.mint where
  amounts id := by
    rw [minted.at?_eq, total_concat]
    by_cases here : id = m.asset
    · subst here
      have zero : sum = 0 ↔ sum.toInt = 0 := Int64.toInt_inj.symm
      simp only [if_true, zero, ← sum_eq]
      split <;> rfl
    · rw [if_neg here, if_neg (Ne.symm here), Int.add_zero]
      exact h.amounts id
  named := minted.named h.named

theorem concat (minted : d.Minted m.asset sum m.redeemer d')
    (sum_eq : sum.toInt = total past m.asset + m.amount.toInt) : Follows (past ++ [m]) d' where
  toSumsUp := h.sumsUp_concat minted sum_eq
  redeemers policy data := by
    have sums := h.sumsUp_concat minted sum_eq
    rw [minted.redeemers, attached_concat_iff, ← sums.mem_keys_iff]
    by_cases same : m.asset.policy = policy
    · subst same
      simp only [if_true, true_and, forall_const, ← h.redeemers, ← Option.or_eq_some_iff]
      split <;> simp [*]
    · simp only [same, if_false, false_and, false_or, false_imp_iff, true_and, h.redeemers,
        sums.mem_keys_iff, holds_concat_of_ne same]
      exact ⟨fun attached => ⟨attached.holds, attached⟩, And.right⟩

theorem exists_ok (fits : Fits past m) : ∃ d',
    d.addMint m.asset.policy m.asset.name m.amount m.redeemer = .ok d' ∧
      Follows (past ++ [m]) d' := by
  obtain ⟨nonzero, range⟩ := fits
  obtain ⟨sum, added⟩ : ∃ sum,
      (d.mint.quantity m.asset.policy m.asset.name).checkedAdd m.amount = some sum := by
    rw [← Option.ne_none_iff_exists', ne_eq, h.checkedAdd_eq_none_iff]
    exact not_not.mpr range
  have sum_eq : sum.toInt = total past m.asset + m.amount.toInt := by
    rw [← h.toInt_quantity]
    exact Int64.ofInt?_eq_some_iff.mp added
  obtain ⟨d', done, minted⟩ : ∃ d',
      d.addMint m.asset.policy m.asset.name m.amount m.redeemer = .ok d' ∧
        d.Minted m.asset sum m.redeemer d' := Draft.exists_minted nonzero added
  exact ⟨d', done, h.concat minted sum_eq⟩

end Follows

theorem follows_empty : Follows [] {} where
  amounts _ := rfl
  named _ _ found := nomatch found
  redeemers policy data := by
    constructor
    · intro found
      cases found
    · intro attached
      obtain ⟨_, zero⟩ := attached.holds
      exact absurd rfl zero

variable {w : Work}

theorem steps_eq (m : Minting) (w : Work) : m.steps w = Steps.whole w
    ((w.draft.addMint m.asset.policy m.asset.name m.amount m.redeemer).map
      (fun d => { w with draft := d })) :=
  Steps.addMint_eq _ _ _ _ w

theorem eq_of_steps_error {e : BuildError} {left : Work} (h : m.steps w = .error e left) :
    left = w := by
  rw [steps_eq] at h
  cases done : w.draft.addMint m.asset.policy m.asset.name m.amount m.redeemer <;>
    rw [done] at h <;> cases h
  rfl

theorem Follows.rejected_iff (h : Follows past w.draft) :
    (∃ e left, m.steps w = .error e left) ↔ ¬ Fits past m := by
  rw [steps_eq]
  constructor
  · rintro ⟨e, left, rejected⟩ fits
    obtain ⟨d', done, _⟩ := h.exists_ok fits
    rw [done] at rejected
    cases rejected
  · intro refused
    obtain ⟨e, failed⟩ := h.exists_error refused
    exact ⟨e, w, by rw [failed]; rfl⟩

theorem accepted_concat (ms : List Minting) (m : Minting) : accepted (ms ++ [m]) =
    if Fits (accepted ms) m then accepted ms ++ [m] else accepted ms := by
  rw [accepted, List.foldl_append]
  rfl

theorem Follows.leaves (h : Follows past w.draft) (m : Minting) :
    Follows (if Fits past m then past ++ [m] else past) (m.leaves w).draft := by
  rw [Minting.leaves, steps_eq]
  split
  · rename_i fits
    obtain ⟨d', done, follows⟩ := h.exists_ok fits
    rw [done]
    exact follows
  · rename_i refused
    obtain ⟨e, failed⟩ := h.exists_error refused
    rw [failed]
    exact h

theorem follows_accepted (w : Work) (ms : List Minting) :
    Follows (accepted ms) (leavesAll ms { w with draft := {} }).draft := by
  induction ms using List.reverseRecOn with
  | nil => exact follows_empty
  | append_singleton ms m ih =>
    rw [accepted_concat, leavesAll, List.foldl_append]
    exact ih.leaves m

/-- Calls on an empty draft, one after the other. The next one is rejected just if it asks for
nothing or takes its asset out of range, and then it leaves all as it is. What is minted are the
sums of what was accepted, where they are not zero, and no policy is left without a name. Only
policies that mint have a redeemer: the last one that was accepted for them, unless they came to
nothing since then. -/
theorem accepted_accounted (w : Work) (ms : List Minting) :
    let now := leavesAll ms { w with draft := {} }
    (∀ m : Minting, ((∃ e left, m.steps now = .error e left) ↔
        m.amount = 0 ∨ ¬ InRange (total (accepted ms) m.asset + m.amount.toInt)) ∧
      ∀ e left, m.steps now = .error e left → left = now) ∧
    (∀ id, (now.draft.mint.at? id).map Int64.toInt =
      if total (accepted ms) id = 0 then none else some (total (accepted ms) id)) ∧
    (∀ policy names, now.draft.mint.get? policy = some names → names.isEmpty = false) ∧
    (∀ policy ∈ now.draft.mintRedeemers.keys, policy ∈ now.draft.mint.keys) ∧
    ∀ policy data, now.draft.mintRedeemers.get? policy = some data ↔
      Attached (accepted ms) policy data := by
  intro now
  have follows := follows_accepted w ms
  refine ⟨fun m => ⟨?_, fun e left => eq_of_steps_error⟩, follows.amounts, follows.named, ?_,
    follows.redeemers⟩
  · rw [follows.rejected_iff, Fits, not_and_or, not_not]
  · intro policy mem
    obtain ⟨data, found⟩ := OrdMap.mem_keys_iff.mp mem
    exact follows.mem_keys_iff.mpr ((follows.redeemers policy data).mp found).holds

end Minting

namespace Sample

def coinage : List Minting :=
  [⟨⟨hash 4, ⟨[7], by decide⟩⟩, 5, some .unit⟩,
    ⟨⟨hash 4, ⟨[7], by decide⟩⟩, 0x7fffffffffffffff, some (.list [])⟩,
    ⟨⟨hash 4, ⟨[8], by decide⟩⟩, 2, none⟩,
    ⟨⟨hash 4, ⟨[7], by decide⟩⟩, -5, none⟩]

end Sample

open Sample in
theorem Minting.accepted_accounted_coinage :
    let now := leavesAll coinage { genesis := .mainnet }
    let more : Minting := ⟨⟨hash 4, ⟨[8], by decide⟩⟩, 0x7ffffffffffffffe, none⟩
    accepted coinage = coinage.eraseIdx 1 ∧
    (∃ e, more.steps now = .error e now) ∧
    now.draft.mint.at? ⟨hash 4, ⟨[7], by decide⟩⟩ = none ∧
    now.draft.mint.at? ⟨hash 4, ⟨[8], by decide⟩⟩ = some 2 ∧
    now.draft.mintRedeemers.get? (hash 4) = some .unit := by
  intro now more
  obtain ⟨calls, amounts, _, _, redeemers⟩ := accepted_accounted { genesis := .mainnet } coinage
  have kept : accepted coinage = coinage.eraseIdx 1 := rfl
  refine ⟨kept, ?_, ?_, ?_, ?_⟩
  · obtain ⟨e, left, rejected⟩ := (calls more).1.mpr (.inr (by decide +kernel))
    obtain rfl := (calls more).2 e left rejected
    exact ⟨e, rejected⟩
  · have none_left := amounts ⟨hash 4, ⟨[7], by decide⟩⟩
    rw [if_pos (by decide +kernel)] at none_left
    exact Option.map_eq_none_iff.mp none_left
  · have two_left := amounts ⟨hash 4, ⟨[8], by decide⟩⟩
    rw [if_neg (by decide +kernel)] at two_left
    obtain ⟨q, held, toInt_q⟩ := Option.map_eq_some_iff.mp two_left
    have q_eq : q = 2 := Int64.toInt_inj.mp (toInt_q.trans (by decide +kernel))
    rw [← q_eq]
    exact held
  · rw [redeemers, kept]
    refine ⟨[], _, _, rfl, rfl, rfl, by simp, fun front h => ?_⟩
    obtain rfl | ⟨front, rfl, h'⟩ := List.prefix_cons_iff.mp h
    · exact ⟨⟨[7], by decide⟩, by decide +kernel⟩
    · refine ⟨⟨[8], by decide⟩, ?_⟩
      obtain rfl | ⟨front, rfl, h''⟩ := List.prefix_cons_iff.mp h'
      · decide +kernel
      · obtain rfl := List.prefix_nil.mp h''
        decide +kernel

end ConwayTx
