import ConwayTx.Proofs.Balance.FeeCoverage
import Mathlib.Data.Finset.Union

namespace ConwayTx

/-- Who has to sign where no script does: the holder of a key, or of a Byron address. -/
inductive Owner
  | key (h : KeyHash)
  | byron (payload : Bytes)
  deriving DecidableEq

namespace Address

def paymentKey? (a : Address) : Option KeyHash := a.paymentCredential?.bind Credential.keyHash?

def byronPayload? : Address → Option Bytes
  | byron payload => some payload
  | _ => Option.none

def owner? : Address → Option Owner
  | shelley a => a.payment.keyHash?.map Owner.key
  | byron payload => some (.byron payload)
  | none | stake _ => Option.none

theorem owner?_eq_key_iff {a : Address} {h : KeyHash} :
    a.owner? = some (.key h) ↔ a.paymentKey? = some h := by
  cases a <;> simp [owner?, paymentKey?, paymentCredential?]

theorem owner?_eq_byron_iff {a : Address} {payload : Bytes} :
    a.owner? = some (.byron payload) ↔ a.byronPayload? = some payload := by
  cases a <;> simp [owner?, byronPayload?]

end Address

namespace Utxo

def owners (us : List Utxo) : Finset Owner := (us.filterMap (·.output.address.owner?)).toFinset

def keyOwners (us : List Utxo) : Finset KeyHash :=
  (us.filterMap (·.output.address.paymentKey?)).toFinset

def byronOwners (us : List Utxo) : Finset Bytes :=
  (us.filterMap (·.output.address.byronPayload?)).toFinset

theorem owners_eq (us : List Utxo) :
    owners us = (keyOwners us).image Owner.key ∪ (byronOwners us).image Owner.byron := by
  ext owner
  cases owner with
  | key h => simp [owners, keyOwners, Address.owner?_eq_key_iff]
  | byron payload => simp [owners, byronOwners, Address.owner?_eq_byron_iff]

theorem card_owners (us : List Utxo) :
    (owners us).card = (keyOwners us).card + (byronOwners us).card := by
  have apart : Disjoint ((keyOwners us).image Owner.key) ((byronOwners us).image Owner.byron) := by
    rw [Finset.disjoint_left]
    intro owner here there
    obtain ⟨h, _, rfl⟩ := Finset.mem_image.mp here
    obtain ⟨payload, _, same⟩ := Finset.mem_image.mp there
    cases same
  rw [owners_eq, Finset.card_union_of_disjoint apart,
    Finset.card_image_of_injective _ (fun _ _ => Owner.key.inj),
    Finset.card_image_of_injective _ (fun _ _ => Owner.byron.inj)]

end Utxo

theorem Tx.keyOwners_subset (tx : Tx) (d : Draft) (spent collateral : List Utxo) :
    Utxo.keyOwners (spent ++ collateral) ⊆ (tx.neededKeys d spent collateral).toFinset := by
  intro key mem
  have owns := List.mem_toFinset.mp mem
  rw [List.mem_toFinset, Tx.neededKeys]
  simp only [List.mem_append]
  tauto

namespace Balance

variable {s : Setup} {d : Draft} {pools : Pools} {plan : Plan} {state : State} {tx : Tx}

theorem Accepted.length_standIns (a : Accepted s d pools plan state tx) :
    a.full.witnesses.vkeys.length =
      (tx.neededKeys d a.inputs a.collateral).toFinset.card + d.signerPadding := by
  rw [a.full_eq, ← a.signers_size]
  simp [Tx.signed, Parts.placeholders]

/-- The transaction that was priced in the end has a stand-in for every key that is needed, and
as many more as were asked for. So there is one for every owner of what is spent or forfeited just
when Byron addresses among these are no more than keys that are needed for other things. -/
theorem owners_priced_iff (h : balance s d pools = .ok tx) :
    ∃ plan state, Balance.plan s.params d pools = .ok plan ∧
      round s d pools plan state = .ok (.done tx) ∧ ∃ a : Accepted s d pools plan state tx,
      (d.PinsByRef → s.select.Lawful → a.inputs = pools.spent d tx) ∧
      tx.body.collateral = OrdSet.ofList (a.collateral.map Utxo.ref) ∧
      a.collateral.Subperm (pools.collateral.getD []) ∧
      a.full.witnesses.vkeys.length =
        (tx.neededKeys d a.inputs a.collateral).toFinset.card + d.signerPadding ∧
      ((Utxo.owners (a.inputs ++ a.collateral)).card ≤
          a.full.witnesses.vkeys.length - d.signerPadding ↔
        (Utxo.byronOwners (a.inputs ++ a.collateral)).card ≤
          ((tx.neededKeys d a.inputs a.collateral).toFinset \
            Utxo.keyOwners (a.inputs ++ a.collateral)).card) := by
  obtain ⟨plan, made, h⟩ := Except.bind_eq_ok.mp h
  obtain ⟨state, _, last⟩ := rounds_done (fun _ => True) (fun _ _ => trivial) trivial h
  obtain ⟨a⟩ := round_done last
  have count := a.length_standIns
  refine ⟨plan, state, made, last, a, a.inputs_eq_spent (plan_ok made), a.tx_collateral,
    a.collateral_subperm, count, ?_⟩
  have owners := Utxo.card_owners (a.inputs ++ a.collateral)
  have others := Finset.card_sdiff_add_card_eq_card (tx.keyOwners_subset d a.inputs a.collateral)
  omega

end Balance

namespace Sample

def heirloom : List Intent :=
  [.changeAddress (.value (keyAddress 3)),
    .utxos [utxo 0 (.byron [0x82]) (.ofLovelace 10000000)],
    .send (.value (keyAddress 2)) (.ofLovelace 2000000)]

theorem heirloom_passes : (run heirloom).satisfies (fun (w, tx) =>
    (tx.neededKeys w.draft (w.pools.spent w.draft tx) []).isEmpty &&
      (w.pools.spent w.draft tx).filterMap (·.output.address.owner?) == [.byron [0x82]] &&
      w.pools.collateral.isNone) = true := by
  decide +kernel

end Sample

theorem Balance.owners_priced_heirloom : ∃ w tx plan state,
    ∃ a : Accepted Sample.setup w.draft w.pools plan state tx,
      Sample.run Sample.heirloom = .ok (w, tx) ∧
      (Utxo.owners (a.inputs ++ a.collateral)).card = 1 ∧
      a.full.witnesses.vkeys.length - w.draft.signerPadding = 0 ∧
      ¬ (Utxo.byronOwners (a.inputs ++ a.collateral)).card ≤
        ((tx.neededKeys w.draft a.inputs a.collateral).toFinset \
          Utxo.keyOwners (a.inputs ++ a.collateral)).card := by
  obtain ⟨⟨w, tx⟩, ran, passes⟩ := Except.satisfies_iff.mp Sample.heirloom_passes
  simp only [Bool.and_eq_true, beq_iff_eq, Option.isNone_iff_eq_none, List.isEmpty_iff] at passes
  obtain ⟨⟨keys, owned⟩, empty⟩ := passes
  obtain ⟨reachable, balanced⟩ := Sample.run_ok ran
  obtain ⟨plan, state, _, _, a, named, _, offered, count, priced⟩ := owners_priced_iff balanced
  have spent := named reachable.pinsByRef Selection.largestFirst_lawful
  rw [empty] at offered
  have nothing : a.collateral = [] := List.subperm_nil.mp offered
  have owners : (Utxo.owners (a.inputs ++ a.collateral)).card = 1 := by
    rw [Utxo.owners, nothing, List.append_nil, spent, owned]
    rfl
  have unpriced : a.full.witnesses.vkeys.length - w.draft.signerPadding = 0 := by
    rw [count, nothing, spent, keys]
    simp
  refine ⟨w, tx, plan, state, a, ran, owners, unpriced, fun enough => ?_⟩
  have := priced.mpr enough
  omega

end ConwayTx
