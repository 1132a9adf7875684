import ConwayTx.Proofs.Cbor
import ConwayTx.Proofs.Collateral
import ConwayTx.Proofs.Witness.Guards
import Mathlib.Data.Finset.Card

namespace ConwayTx

open Cbor (Item)

namespace VKeyWitness

def Sized (w : VKeyWitness) : Prop := w.key.length = 32 ∧ w.signature.length = 64

theorem length_encode {w : VKeyWitness} (h : w.Sized) : w.toItem.encode.length = 101 := by
  obtain ⟨key, signature⟩ := h
  simp [toItem, Item.encode, Item.encodeAll, Cbor.encodeBytes, Cbor.head, key, signature,
    UInt8.size, Bytes.ofNat]

theorem placeholder_sized (seed : Nat) : (placeholder seed).Sized := by
  simp [Sized, placeholder]

theorem length_encodeAll {ws : List VKeyWitness} (h : ∀ w ∈ ws, w.Sized) :
    (Item.encodeAll (ws.map toItem)).length = 101 * ws.length := by
  induction ws with
  | nil => rfl
  | cons w rest ih =>
    have first := length_encode (h w List.mem_cons_self)
    have others := ih (fun v mem => h v (List.mem_cons_of_mem _ mem))
    rw [List.map_cons, Item.encodeAll, List.length_append, first, others, List.length_cons]
    omega

end VKeyWitness

namespace Tx

def signed (tx : Tx) (vkeys : List VKeyWitness) : Tx :=
  { tx with witnesses := { tx.witnesses with vkeys := vkeys } }

/-- Keys whose holders have to sign: required signers, those that spent outputs, collateral,
certificates, withdrawals and votes name, and those that native scripts mention. -/
def neededKeys (tx : Tx) (d : Draft) (spent collateral : List Utxo) : List KeyHash :=
  tx.body.requiredSigners.keys ++
  (spent ++ collateral).filterMap
    (fun u => u.output.address.paymentCredential?.bind Credential.keyHash?) ++
  tx.body.certificates.filterMap (fun c => c.witness?.bind Credential.keyHash?) ++
  tx.body.withdrawals.keys.filterMap (fun account => account.credential.keyHash?) ++
  tx.body.votes.keys.filterMap (fun voter => voter.credential.keyHash?) ++
  Draft.mentionedKeys ((Purpose.all.flatMap (tx.guards spent)).filterMap
    (fun guard => guard.bind (d.scriptFor spent))) ++
  tx.witnesses.native.flatMap NativeScript.keysIn

end Tx

namespace Witnesses

theorem entries_signed (w : Witnesses) (vkeys : List VKeyWitness) :
    entries { w with vkeys := vkeys } =
      TxBody.filled 0 vkeys.isEmpty (.array vkeys.length (vkeys.map VKeyWitness.toItem)) ++
        entries { w with vkeys := [] } := by
  simp [entries, TxBody.filled]

theorem length_encode_signed (w : Witnesses) {vs ws : List VKeyWitness}
    (same : vs.length = ws.length) (hv : ∀ v ∈ vs, v.Sized) (hw : ∀ v ∈ ws, v.Sized) :
    (toItem { w with vkeys := vs }).encode.length =
      (toItem { w with vkeys := ws }).encode.length := by
  have sizes : (Item.encodeAll (vs.map VKeyWitness.toItem)).length =
      (Item.encodeAll (ws.map VKeyWitness.toItem)).length := by
    rw [VKeyWitness.length_encodeAll hv, VKeyWitness.length_encodeAll hw, same]
  have empty : vs.isEmpty = ws.isEmpty := by
    rw [Bool.eq_iff_iff, List.isEmpty_iff_length_eq_zero, List.isEmpty_iff_length_eq_zero, same]
  have counts : fieldCount { w with vkeys := vs } = fieldCount { w with vkeys := ws } := by
    simp only [fieldCount, empty]
  simp only [toItem, Item.encode, counts, entries_signed w vs, entries_signed w ws, empty,
    Item.encodeEntries_append, List.length_append]
  cases ws.isEmpty with
  | true => rfl
  | false =>
    simp only [TxBody.filled, Bool.false_eq_true, if_false, Item.encodeEntries, Item.encode,
      List.length_append, sizes, same]

end Witnesses

theorem Tx.encode_signed (tx : Tx) {vs ws : List VKeyWitness} (same : vs.length = ws.length)
    (hv : ∀ v ∈ vs, v.Sized) (hw : ∀ w ∈ ws, w.Sized) {bs : Bytes}
    (h : (tx.signed vs).encode = .ok bs) :
    ∃ bs', (tx.signed ws).encode = .ok bs' ∧ bs'.length = bs.length := by
  obtain ⟨item, made, rfl⟩ := Except.map_eq_ok.mp h
  obtain ⟨metadata, encoded, rfl⟩ := Except.map_eq_ok.mp made
  have encoded : (tx.signed ws).metadataItem = .ok metadata := encoded
  refine ⟨_, Except.map_eq_ok.mpr ⟨_, Except.map_eq_ok.mpr ⟨metadata, encoded, rfl⟩, rfl⟩, ?_⟩
  have sizes := tx.witnesses.length_encode_signed same hv hw
  simp only [signed, Item.encode, Item.encodeAll, List.length_append, sizes]
  rfl

def refScriptBytes (us : List Utxo) : Nat :=
  (us.map (fun u => (u.output.scriptRef.map Script.size).getD 0)).sum

namespace Balance

variable {s : Setup} {d : Draft} {pools : Pools} {plan : Plan} {state : State} {tx : Tx}

theorem Parts.refScriptBytes_eq (parts : Parts) (d : Draft) :
    parts.refScriptBytes d = ConwayTx.refScriptBytes (parts.inputs ++ d.referenced) := by
  rw [Parts.refScriptBytes, Parts.resolved, ConwayTx.refScriptBytes, List.sum_eq_foldl,
    List.foldl_map]

theorem le_of_price_le {p : Params} {parts : Parts} {full : Tx} {fee : UInt64}
    (h : price p d plan parts full ≤ fee) :
    Fee.minimum p full.size parts.resolution.totalUnits (parts.refScriptBytes d) ≤ fee ∧
      plan.minimumFee ≤ fee := by
  rw [price, UInt64.le_iff_toNat_le, UInt64.toNat_max, Nat.max_le] at h
  exact h.imp UInt64.le_iff_toNat_le.mpr UInt64.le_iff_toNat_le.mpr

theorem Finished.full_eq {p : Params} {parts : Parts} {full : Tx}
    (h : Finished p plan parts full tx) : full = tx.signed full.witnesses.vkeys := by
  rw [h.tx_eq]
  rfl

namespace Accepted

variable (a : Accepted s d pools plan state tx)

def collateral : List Utxo := a.parts.collateral.toList.flatMap Collateral.inputs

include a

theorem tx_collateral : tx.body.collateral = OrdSet.ofList (a.collateral.map Utxo.ref) :=
  a.of_body (fun _ => rfl)

theorem collateral_pledgeable : a.collateral.Subperm pools.pledgeable := by
  unfold collateral
  cases found : a.parts.collateral with
  | none => exact List.nil_subperm
  | some c =>
    obtain ⟨selected⟩ := Collateral.select_ok (a.prepared.secured c found)
    simpa using selected.inputs_subperm

theorem collateral_subperm : a.collateral.Subperm (pools.collateral.getD []) :=
  a.collateral_pledgeable.trans List.filter_sublist.subperm

theorem mem_requiredKeys {r : Resolution} (resolves : d.Resolves a.inputs r) {k : KeyHash} :
    (∃ q ∈ resolves.requirements,
      k ∈ Draft.mentionedKeys (d.scriptFor a.inputs q.script).toList) ↔
      k ∈ Draft.mentionedKeys ((Purpose.all.flatMap (tx.guards a.inputs)).filterMap
        (fun guard => guard.bind (d.scriptFor a.inputs))) := by
  simp only [Draft.mem_mentionedKeys, Option.mem_toList, List.mem_filterMap]
  constructor
  · rintro ⟨q, mem, n, found, mentions⟩
    exact ⟨n, ⟨some q.script, (a.required_iff_guards resolves).mp ⟨q, mem, rfl⟩, found⟩, mentions⟩
  · rintro ⟨n, ⟨guard, mem, found⟩, mentions⟩
    obtain ⟨h, rfl, found⟩ := Option.bind_eq_some_iff.mp found
    obtain ⟨q, there, rfl⟩ := (a.required_iff_guards resolves).mpr mem
    exact ⟨q, there, n, found, mentions⟩

theorem mem_signers {k : KeyHash} :
    k ∈ a.parts.signers.keys ↔ k ∈ tx.neededKeys d a.inputs a.collateral := by
  obtain ⟨r, ⟨resolves⟩, same⟩ := a.resolves
  have keys : a.parts.resolution.keys = r.keys := (congrArg Resolution.keys same :)
  have scripts : a.parts.resolution.scripts = r.scripts := (congrArg Resolution.scripts same :)
  have forfeiting : a.parts.collateral.toList.flatMap Collateral.keys = a.collateral.filterMap
      (fun u => u.output.address.paymentCredential?.bind Credential.keyHash?) := by
    rw [collateral, List.filterMap_flatMap]
    rfl
  rw [Parts.signers, OrdSet.mem_keys_union, keys, resolves.keys k, a.mem_requiredKeys resolves,
    forfeiting, ← scripts, ← a.tx_native]
  simp only [Tx.neededKeys, Draft.signingKeys, a.tx_requiredSigners, a.tx_certificates,
    a.tx_withdrawals, a.tx_votes, OrdMap.keys_mapValues, List.mem_append, List.filterMap_append,
    List.filterMap_map, Function.comp_def]
  tauto

theorem signers_size :
    a.parts.signers.size = (tx.neededKeys d a.inputs a.collateral).toFinset.card := by
  have same : a.parts.signers.keys.toFinset = (tx.neededKeys d a.inputs a.collateral).toFinset := by
    ext k
    simp [a.mem_signers]
  rw [← same, List.toFinset_card_of_nodup (OrdMap.keys_nodup _), OrdMap.length_keys]

theorem full_eq : a.full = tx.signed (a.parts.placeholders d.signerPadding) := by
  obtain ⟨hash, _, full⟩ := assemble_ok a.assembled
  calc
    a.full = tx.signed a.full.witnesses.vkeys := (finish_ok a.finished).full_eq
    _ = tx.signed (a.parts.placeholders d.signerPadding) := by rw [full]

theorem fee_le : state.fee ≤ tx.body.fee := by
  rw [UInt64.le_iff_toNat_le, a.toNat_tx_fee]
  exact Nat.le_add_right _ _

theorem minimumFee_le (planned : Planned s.params d pools plan) :
    d.minimumFee.getD 0 ≤ tx.body.fee := by
  have priced := (le_of_price_le a.priced).2
  rw [planned.minimumFee] at priced
  exact UInt64.le_trans priced a.fee_le

theorem encode_signed {vkeys : List VKeyWitness} (sized : ∀ w ∈ vkeys, w.Sized)
    (count : vkeys.length =
      (tx.neededKeys d a.inputs a.collateral).toFinset.card + d.signerPadding) :
    ∃ bytes, (tx.signed vkeys).encode = .ok bytes ∧ bytes.length = a.full.size ∧
      bytes.length ≤ s.params.maxTxSize.toNat := by
  obtain ⟨full, encoded, fits⟩ := checkSize_ok (finish_ok a.finished).size
  have full_size : a.full.size = full.length := by simp [Tx.size, Tx.bytes, encoded]
  rw [a.full_eq] at encoded
  have same : (a.parts.placeholders d.signerPadding).length = vkeys.length := by
    rw [count, ← a.signers_size, Parts.placeholders, List.length_map, List.length_range]
  have stand : ∀ w ∈ a.parts.placeholders d.signerPadding, w.Sized := by
    intro w mem
    obtain ⟨seed, _, rfl⟩ := List.mem_map.mp mem
    exact VKeyWitness.placeholder_sized seed
  obtain ⟨bytes, made, length⟩ := tx.encode_signed same stand sized encoded
  exact ⟨bytes, made, length.trans full_size.symm, length ▸ fits⟩

theorem minimum_le :
    Fee.minimum s.params a.full.size (ExUnits.sum (tx.witnesses.redeemers.map Redeemer.units))
      (ConwayTx.refScriptBytes (a.inputs ++ d.referenced)) ≤ tx.body.fee := by
  have priced := (le_of_price_le a.priced).1
  rw [Parts.refScriptBytes_eq, a.prepared.inputs_eq] at priced
  rw [a.tx_redeemers]
  exact UInt64.le_trans priced a.fee_le

end Accepted

/-- Once the keys that are needed have signed, and as many more as there was room left for, the fee
is at least what the transaction has to pay, and the transaction is not too large. -/
theorem fee_covers_signed (h : balance s d pools = .ok tx) :
    ∃ spent collateral : List Utxo,
      tx.body.inputs = OrdSet.ofList (spent.map Utxo.ref) ∧
      (d.PinsByRef → s.select.Lawful → spent = pools.spent d tx) ∧
      tx.body.collateral = OrdSet.ofList (collateral.map Utxo.ref) ∧
      collateral.Subperm (pools.collateral.getD []) ∧
      d.minimumFee.getD 0 ≤ tx.body.fee ∧
      ∀ vkeys : List VKeyWitness, (∀ w ∈ vkeys, w.Sized) →
        vkeys.length = (tx.neededKeys d spent collateral).toFinset.card + d.signerPadding →
        ∃ bytes, (tx.signed vkeys).encode = .ok bytes ∧
          Fee.minimum s.params bytes.length
            (ExUnits.sum (tx.witnesses.redeemers.map Redeemer.units))
            (refScriptBytes (spent ++ d.referenced)) ≤ tx.body.fee ∧
          bytes.length ≤ s.params.maxTxSize.toNat := by
  obtain ⟨plan, state, made, ⟨a⟩⟩ := balance_ok h
  have planned := plan_ok made
  refine ⟨a.inputs, a.collateral, a.tx_inputs, a.inputs_eq_spent planned, a.tx_collateral,
    a.collateral_subperm, a.minimumFee_le planned, ?_⟩
  intro vkeys sized count
  obtain ⟨bytes, encoded, size, fits⟩ := a.encode_signed sized count
  refine ⟨bytes, encoded, ?_, fits⟩
  rw [size]
  exact a.minimum_le

end Balance

namespace Sample

def cosigned : List Intent :=
  [.changeAddress (.value (keyAddress 3)),
    .utxos [utxo 0 (keyAddress 1) (.ofLovelace 10000000)],
    .signer (.value (hash 5)),
    .padSigners 1,
    .send (.value (keyAddress 2)) (.ofLovelace 2000000)]

theorem cosigned_passes : (run cosigned).satisfies (fun (w, tx) =>
    (tx.neededKeys w.draft (w.pools.spent w.draft tx) []).dedup == [hash 5, hash 1] &&
      w.draft.signerPadding == 1 && w.pools.collateral.isNone) = true := by
  decide +kernel

end Sample

theorem Balance.fee_covers_cosigned : ∃ w tx bytes, Sample.run Sample.cosigned = .ok (w, tx) ∧
    (tx.signed (List.replicate 3 (VKeyWitness.placeholder 0))).encode = .ok bytes ∧
    Fee.minimum Sample.setup.params bytes.length
      (ExUnits.sum (tx.witnesses.redeemers.map Redeemer.units))
      (refScriptBytes (w.pools.spent w.draft tx ++ w.draft.referenced)) ≤ tx.body.fee ∧
    bytes.length ≤ Sample.setup.params.maxTxSize.toNat := by
  obtain ⟨⟨w, tx⟩, ran, passes⟩ := Except.satisfies_iff.mp Sample.cosigned_passes
  simp only [Bool.and_eq_true, beq_iff_eq, Option.isNone_iff_eq_none] at passes
  obtain ⟨⟨keys, padding⟩, empty⟩ := passes
  obtain ⟨reachable, balanced⟩ := Sample.run_ok ran
  obtain ⟨spent, collateral, _, named, _, offered, _, covered⟩ := fee_covers_signed balanced
  obtain rfl := named reachable.pinsByRef Selection.largestFirst_lawful
  rw [empty] at offered
  obtain rfl := List.subperm_nil.mp offered
  obtain ⟨bytes, encoded, paid, fits⟩ :=
    covered (List.replicate 3 (VKeyWitness.placeholder 0)) (by
      intro v mem
      rw [List.eq_of_mem_replicate mem]
      exact VKeyWitness.placeholder_sized 0) (by
      rw [List.card_toFinset, keys, padding]
      rfl)
  exact ⟨w, tx, bytes, ran, encoded, paid, fits⟩

end ConwayTx
