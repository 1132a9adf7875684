import ConwayTx.Proofs.Cbor.Delimiting
import ConwayTx.Proofs.Cbor.Writing
import ConwayTx.Proofs.OrdMap
import ConwayTx.Proofs.Plutus.RoundTrip
import ConwayTx.Proofs.Script
import ConwayTx.Tx.Basic
/-!
Transactions are written as one well-formed item, down to the items in inline data and reference
scripts: what each part announces is what follows, be it a literal, the size of a collection or the
count of the fields that are there. The keys of the body and of the witnesses ascend, and are those
of these fields.
-/

namespace ConwayTx

open Cbor

section Parts

@[simp] theorem Hash.sealed_toItem {width : Nat} (h : Hash width) : h.toItem.Sealed := by
  simp [toItem]

@[simp] theorem AssetName.sealed_toItem (n : AssetName) : n.toItem.Sealed := by simp [toItem]

@[simp] theorem Address.sealed_toItem (a : Address) : a.toItem.Sealed := by simp [toItem]

@[simp] theorem StakeAddress.sealed_toItem (a : StakeAddress) : a.toItem.Sealed := by simp [toItem]

@[simp] theorem OutRef.sealed_toItem (r : OutRef) : r.toItem.Sealed := by simp [toItem]

@[simp] theorem Credential.sealed_toItem (c : Credential) : c.toItem.Sealed := by
  cases c <;> simp [toItem]

@[simp] theorem DRep.sealed_toItem (d : DRep) : d.toItem.Sealed := by
  cases d <;> simp [toItem]

@[simp] theorem Anchor.sealed_toItem (a : Anchor) : a.toItem.Sealed := by simp [toItem]

@[simp] theorem Certificate.sealed_toItem (c : Certificate) : c.toItem.Sealed := by
  cases c <;> simp [toItem, anchorItem]

@[simp] theorem Voter.sealed_toItem (v : Voter) : v.toItem.Sealed := by
  cases v with
  | committee c | drep c => cases c <;> simp [toItem]
  | pool id => simp [toItem]

@[simp] theorem Vote.sealed_toItem (v : Vote) : v.toItem.Sealed := by
  cases v <;> simp [toItem]

@[simp] theorem VotingProcedure.sealed_toItem (p : VotingProcedure) : p.toItem.Sealed := by
  simp [toItem]

@[simp] theorem GovActionId.sealed_toItem (id : GovActionId) : id.toItem.Sealed := by simp [toItem]

@[simp] theorem Votes.sealed_toItem (vs : Votes) : vs.toItem.Sealed := by simp [toItem]

@[simp] theorem GovAction.sealed_toItem (a : GovAction) : a.toItem.Sealed := by
  cases a <;> simp [toItem]

@[simp] theorem Proposal.sealed_toItem (p : Proposal) : p.toItem.Sealed := by simp [toItem]

@[simp] theorem Value.sealed_toItem (v : Value) : v.toItem.Sealed := by
  rw [toItem]
  split <;> simp [assetsItem]

@[simp] theorem Mint.sealed_toItem (m : Mint) : m.toItem.Sealed := by simp [toItem]

namespace PlutusData

@[simp] theorem sealed_boundedBytes (b : Bytes) : (boundedBytes b).Sealed := by
  rw [boundedBytes]
  split <;> simp

@[simp] theorem sealed_intItem (n : Int128) : (intItem n).Sealed := by
  rw [intItem]
  repeat' split
  · simp
  · simp [Item.sealed_tag]
  · simp [Item.sealed_tag]

@[simp] theorem sealed_listItem {items : List Item} :
    (listItem items).Sealed ↔ ∀ item ∈ items, item.Sealed := by
  cases items <;> simp [listItem]

theorem sealed_constrItem (c : UInt64) {fields : List Item} (each : ∀ item ∈ fields, item.Sealed) :
    (constrItem c fields).Sealed := by
  by_cases own : c ≤ 127
  · obtain ⟨u, own, item⟩ := constrItem_own own fields
    have range := exists_ownTag_iff.mp ⟨c, own⟩
    have other : u ≠ 24 := by
      rintro rfl
      revert range
      decide
    rw [item, Item.sealed_tag other]
    simpa using each
  · have small : ¬ c ≤ 6 := fun small => own (UInt64.le_trans small (by decide))
    rw [constrItem, if_neg small, if_neg own, Item.sealed_tag (by decide)]
    simpa using each

mutual

theorem sealed_toItem : (d : PlutusData) → d.toItem.Sealed
  | constr c fields => sealed_constrItem c (sealed_itemsOf fields)
  | map entries => Item.sealed_map.mpr ⟨(length_entriesOf entries).symm, sealed_entriesOf entries⟩
  | list items => sealed_listItem.mpr (sealed_itemsOf items)
  | int n => sealed_intItem n
  | bytes b => sealed_boundedBytes b

theorem sealed_itemsOf : (ds : List PlutusData) → ∀ item ∈ itemsOf ds, item.Sealed
  | [] => by simp [itemsOf]
  | d :: rest => by simpa [itemsOf] using ⟨sealed_toItem d, sealed_itemsOf rest⟩

theorem sealed_entriesOf :
    (ps : List (PlutusData × PlutusData)) → ∀ e ∈ entriesOf ps, e.1.Sealed ∧ e.2.Sealed
  | [] => by simp [entriesOf]
  | (k, v) :: rest => by
    rw [entriesOf, List.forall_mem_cons]
    exact ⟨⟨sealed_toItem k, sealed_toItem v⟩, sealed_entriesOf rest⟩

end

end PlutusData

namespace NativeScript

theorem length_itemsOf (scripts : List NativeScript) :
    (itemsOf scripts).length = scripts.length := by
  rw [itemsOf_eq_map, List.length_map]

mutual

theorem sealed_toItem : (s : NativeScript) → s.toItem.Sealed
  | pubkey h => by simp [toItem]
  | all scripts | any scripts | atLeast n scripts => by
    simpa [toItem, length_itemsOf] using sealed_itemsOf scripts
  | invalidBefore slot | invalidHereafter slot => by simp [toItem]

theorem sealed_itemsOf : (ss : List NativeScript) → ∀ item ∈ itemsOf ss, item.Sealed
  | [] => by simp [itemsOf]
  | s :: rest => by simpa [itemsOf] using ⟨sealed_toItem s, sealed_itemsOf rest⟩

end

end NativeScript

namespace Metadatum

mutual

theorem sealed_of_toItem : {m : Metadatum} → {item : Item} → m.toItem = .ok item → item.Sealed
  | int n, item, h => by
    rw [toItem] at h
    split at h <;> cases h
    exact Item.sealed_ofInt _
  | bytes b, item, h => by
    cases h
    exact Item.sealed_bytes b
  | text t, item, h => by
    cases h
    exact Item.sealed_text t
  | array items, item, h => by
    obtain ⟨written, each, rfl⟩ := Except.map_eq_ok.mp h
    exact sealed_of_itemsOf each
  | map entries, item, h => by
    obtain ⟨written, each, rfl⟩ := Except.map_eq_ok.mp h
    exact sealed_of_entriesOf each

theorem sealed_of_itemsOf : {ms : List Metadatum} → {items : List Item} →
    itemsOf ms = .ok items → (Item.array ms.length items).Sealed
  | [], items, h => by
    cases h
    simp
  | m :: rest, items, h => by
    obtain ⟨first, written, h⟩ := Except.bind_eq_ok.mp h
    obtain ⟨others, later, h⟩ := Except.bind_eq_ok.mp h
    cases h
    exact Item.sealed_array_cons (sealed_of_toItem written) (sealed_of_itemsOf later)

theorem sealed_of_entriesOf : {ps : List (Metadatum × Metadatum)} → {es : List (Item × Item)} →
    entriesOf ps = .ok es → (Item.map ps.length es).Sealed
  | [], es, h => by
    cases h
    simp [Item.sealed_map]
  | (k, v) :: rest, es, h => by
    obtain ⟨key, writtenKey, h⟩ := Except.bind_eq_ok.mp h
    obtain ⟨value, writtenValue, h⟩ := Except.bind_eq_ok.mp h
    obtain ⟨others, later, h⟩ := Except.bind_eq_ok.mp h
    cases h
    exact Item.sealed_map_cons (sealed_of_toItem writtenKey) (sealed_of_toItem writtenValue)
      (sealed_of_entriesOf later)

end

end Metadatum

@[simp] theorem Script.sealed_toItem (s : Script) : s.toItem.Sealed := by
  cases s <;> simp [toItem, NativeScript.sealed_toItem]

@[simp] theorem TxOut.sealed_datumItem (d : Datum) : (datumItem d).Sealed := by
  cases d with
  | hash h => simp [datumItem]
  | inline data =>
    have embedded : (Item.embedded data.encode).Sealed := .embedded data.sealed_toItem
    simpa [datumItem] using embedded

@[simp] theorem TxOut.sealed_toItem (o : TxOut) : o.toItem.Sealed := by
  have script (s : Script) : (Item.embedded s.encode).Sealed := .embedded s.sealed_toItem
  rw [toItem]
  cases o.datum <;> cases o.scriptRef <;> simp [Item.sealed_map, script]

@[simp] theorem RedeemerPointer.sealed_toItem (p : RedeemerPointer) : p.toItem.Sealed := by
  simp [toItem, Purpose.toItem]

@[simp] theorem ExUnits.sealed_toItem (u : ExUnits) : u.toItem.Sealed := by simp [toItem]

@[simp] theorem Redeemer.sealed_mapItem (rs : List Redeemer) : (mapItem rs).Sealed := by
  simp [mapItem, PlutusData.sealed_toItem]

@[simp] theorem VKeyWitness.sealed_toItem (w : VKeyWitness) : w.toItem.Sealed := by simp [toItem]

end Parts

theorem Metadata.toItem_ok {m : Metadata} {item : Item} (h : m.toItem = .ok item) :
    ∃ entries, item = .map m.size entries ∧ (Item.map m.size entries).Sealed ∧
      entries.map Prod.fst = m.keys.map Item.nat := by
  obtain ⟨entries, each, same⟩ := Except.map_eq_ok.mp h
  have each := Except.forall₂_of_mapM_eq_ok each
  refine ⟨entries, same.symm, Item.sealed_map.mpr ⟨each.length_eq, ?_⟩, ?_⟩
  · refine forall_left each.flip ?_
    intro e labelled made
    obtain ⟨value, written, rfl⟩ := Except.map_eq_ok.mp made
    exact ⟨Item.sealed_nat _, Metadatum.sealed_of_toItem written⟩
  · rw [OrdMap.keys, List.map_map]
    refine map_eq_map each.flip ?_
    intro e labelled made
    obtain ⟨value, _, rfl⟩ := Except.map_eq_ok.mp made
    rfl

namespace TxBody

def fields : List Nat := [0, 1, 2, 3, 4, 5, 7, 8, 9, 11, 13, 14, 15, 16, 17, 18, 19, 20]

/-- Inputs, outputs and the fee are always there, else an option if it is set and a collection if it
has members. -/
def has (b : TxBody) : Nat → Bool
  | 0 | 1 | 2 => true
  | 3 => b.ttl.isSome
  | 4 => !b.certificates.isEmpty
  | 5 => !b.withdrawals.isEmpty
  | 7 => b.auxiliaryDataHash.isSome
  | 8 => b.validityStart.isSome
  | 9 => !b.mint.isEmpty
  | 11 => b.scriptDataHash.isSome
  | 13 => !b.collateral.isEmpty
  | 14 => !b.requiredSigners.isEmpty
  | 15 => b.network.isSome
  | 16 => b.collateralReturn.isSome
  | 17 => b.totalCollateral.isSome
  | 18 => !b.referenceInputs.isEmpty
  | 19 => !b.votes.isEmpty
  | 20 => !b.proposals.isEmpty
  | _ => false

theorem keys_optional {α : Type} (key : UInt64) (f : α → Item) (o : Option α) :
    (optional key f o).map Prod.fst = if o.isSome then [.nat key] else [] := by
  cases o <;> rfl

theorem keys_filled (key : UInt64) (isEmpty : Bool) (item : Item) :
    (filled key isEmpty item).map Prod.fst = if !isEmpty then [.nat key] else [] := by
  cases isEmpty <;> rfl

theorem keys_entries (b : TxBody) :
    b.entries.map Prod.fst = (fields.filter b.has).map Item.ofNat := by
  have apart : fields = [0] ++ [1] ++ [2] ++ [3] ++ [4] ++ [5] ++ [7] ++ [8] ++ [9] ++ [11] ++
      [13] ++ [14] ++ [15] ++ [16] ++ [17] ++ [18] ++ [19] ++ [20] := rfl
  rw [apart]
  simp only [entries, List.map_append, List.filter_append, keys_optional, keys_filled,
    Item.map_ofNat_filter_singleton, has]
  rfl

theorem fieldCount_eq (b : TxBody) : b.fieldCount = b.entries.length :=
  -- The tests that are counted are `has` at the fields, one by one.
  count_eq_length b.keys_entries

theorem sealed_optional {α : Type} {key : UInt64} {f : α → Item} {o : Option α} :
    (∀ e ∈ optional key f o, e.1.Sealed ∧ e.2.Sealed) ↔ ∀ a ∈ o, (f a).Sealed := by
  cases o <;> simp [optional]

theorem sealed_filled {key : UInt64} {isEmpty : Bool} {item : Item} :
    (∀ e ∈ filled key isEmpty item, e.1.Sealed ∧ e.2.Sealed) ↔
      (isEmpty = false → item.Sealed) := by
  cases isEmpty <;> simp [filled]

@[simp] theorem sealed_refsItem (refs : OrdSet OutRef) : (refsItem refs).Sealed := by
  simp [refsItem]

theorem sealed_toItem (b : TxBody) : b.toItem.Sealed := by
  refine Item.sealed_map.mpr ⟨b.fieldCount_eq, ?_⟩
  simp only [entries, List.forall_mem_append, List.forall_mem_cons, sealed_optional, sealed_filled]
  simp

theorem mem_fields_of_has {b : TxBody} {k : Nat} (h : b.has k = true) : k ∈ fields := by
  unfold has at h
  split at h
  all_goals first | decide | cases h

theorem exists_tree {b : TxBody} (fits : b.encode.length < UInt64.size) :
    ∃ t, Written t b.toItem ∧ t.Keyed b.has :=
  exists_keyed b.keys_entries b.sealed_toItem fits (by decide) (by decide)
    (fun _ => mem_fields_of_has)

end TxBody

namespace Witnesses

def fields : List Nat := [0, 1, 3, 4, 5, 6, 7]

/-- Each kind of witness is there if there are any of the kind. -/
def has (w : Witnesses) : Nat → Bool
  | 0 => !w.vkeys.isEmpty
  | 1 => !w.native.isEmpty
  | 3 => !w.v1.isEmpty
  | 4 => !w.datums.isEmpty
  | 5 => !w.redeemers.isEmpty
  | 6 => !w.v2.isEmpty
  | 7 => !w.v3.isEmpty
  | _ => false

theorem keys_entries (w : Witnesses) :
    w.entries.map Prod.fst = (fields.filter w.has).map Item.ofNat := by
  have apart : fields = [0] ++ [1] ++ [3] ++ [4] ++ [5] ++ [6] ++ [7] := rfl
  rw [apart]
  simp only [entries, List.map_append, List.filter_append, TxBody.keys_filled,
    Item.map_ofNat_filter_singleton, has]
  rfl

theorem fieldCount_eq (w : Witnesses) : w.fieldCount = w.entries.length :=
  count_eq_length w.keys_entries

theorem sealed_toItem (w : Witnesses) : w.toItem.Sealed := by
  refine Item.sealed_map.mpr ⟨w.fieldCount_eq, ?_⟩
  simp only [entries, List.forall_mem_append, TxBody.sealed_filled]
  simp [datumsItem, NativeScript.sealed_toItem, PlutusData.sealed_toItem]

theorem mem_fields_of_has {w : Witnesses} {k : Nat} (h : w.has k = true) : k ∈ fields := by
  unfold has at h
  split at h
  all_goals first | decide | cases h

theorem exists_tree {w : Witnesses} (fits : w.toItem.encode.length < UInt64.size) :
    ∃ t, Written t w.toItem ∧ t.Keyed w.has :=
  exists_keyed w.keys_entries w.sealed_toItem fits (by decide) (by decide)
    (fun _ => mem_fields_of_has)

end Witnesses

namespace Tx

variable {tx : Tx} {bytes : Bytes}

def Auxiliary (t : Tree) : Option Metadata → Prop
  | none => t.encode = [0xf6]
  | some m => t.keys? = some (m.keys.map (fun label => some label.toNat))

theorem exists_auxiliary {item : Item} (h : tx.metadataItem = .ok item)
    (fits : item.encode.length < UInt64.size) : ∃ t, Written t item ∧ Auxiliary t tx.metadata := by
  rw [metadataItem] at h
  cases metadata : tx.metadata with
  | none =>
    simp only [metadata] at h
    cases h
    obtain ⟨t, written⟩ := Item.sealed_null.exists_tree (by decide)
    exact ⟨t, written, written.encode_eq⟩
  | some m =>
    simp only [metadata] at h
    obtain ⟨entries, rfl, whole, labels⟩ := Metadata.toItem_ok h
    obtain ⟨t, es, written, found, all⟩ := whole.exists_map fits
    refine ⟨t, written, ?_⟩
    rw [Auxiliary, keys?_eq found all, labels, List.map_map]
    rfl

/-- A transaction is written as one well-formed item and nothing beside it: body, witnesses, a flag
and metadata, the first two with an entry for each field that is there. In a tree every head
announces the members that follow it, and what is sealed embeds only trees. A word can count the
bytes, as it can those of anything in memory. -/
theorem encode_wellFormed (h : tx.encode = .ok bytes) (fits : bytes.length < UInt64.size) :
    ∃ t body witnesses flag auxiliary : Tree, t.encode = bytes ∧ t.Sealed ∧
      (∀ t' rest, t'.encode ++ rest = bytes → t' = t ∧ rest = []) ∧
      t.items? = some [body, witnesses, flag, auxiliary] ∧
      (body.encode = tx.body.encode ∧ body.Keyed tx.body.has) ∧
      (witnesses.encode = tx.witnesses.toItem.encode ∧ witnesses.Keyed tx.witnesses.has) ∧
      flag.encode = [if tx.isValid then 0xf5 else 0xf4] ∧ Auxiliary auxiliary tx.metadata := by
  obtain ⟨item, made, rfl⟩ := Except.map_eq_ok.mp h
  obtain ⟨metadata, written, rfl⟩ := Except.map_eq_ok.mp made
  have part : ∀ c ∈ [tx.body.toItem, tx.witnesses.toItem, .bool tx.isValid, metadata],
      c.encode.length < UInt64.size := fun c mem =>
    Nat.lt_of_le_of_lt (@Item.length_encode_le (.array 4 _) c mem) fits
  simp only [List.forall_mem_cons] at part
  obtain ⟨fitsBody, fitsWitnesses, _, fitsMetadata, _⟩ := part
  obtain ⟨body, isBody, bodyKeys⟩ := TxBody.exists_tree fitsBody
  obtain ⟨witnesses, isWitnesses, witnessKeys⟩ := Witnesses.exists_tree fitsWitnesses
  obtain ⟨flag, isFlag⟩ := exists_bool tx.isValid
  obtain ⟨auxiliary, isAuxiliary, labels⟩ := exists_auxiliary written fitsMetadata
  obtain ⟨t, isTx, items⟩ := exists_array
    (.cons isBody (.cons isWitnesses (.cons isFlag (.cons isAuxiliary .nil))))
    (show 4 < UInt64.size by decide)
  refine ⟨t, body, witnesses, flag, auxiliary, isTx.encode_eq, isTx.whole, ?_, items,
    ⟨isBody.encode_eq, bodyKeys⟩, ⟨isWitnesses.encode_eq, witnessKeys⟩, ?_, labels⟩
  · intro t' rest same
    exact Tree.eq_of_encode_append (same.trans isTx.encode_eq.symm)
  · rw [isFlag.encode_eq]
    cases tx.isValid <;> rfl

end Tx

namespace Sample

def laden : Tx where
  body := {
    inputs := OrdSet.ofList [⟨Hash.zero, 0⟩]
    outputs := [{
      address := .shelley ⟨.testnet, .key Hash.zero, .none⟩
      value := .ofLovelace 2000000
      datum := some (.inline (.list [.map [(.bytes [], .list [])]]))
      scriptRef := some (.native (.all [.any []])) }]
    fee := 200000
    certificates := [.drepUpdate (.key Hash.zero) (some ⟨"a", Hash.zero⟩)] }
  witnesses := { datums := [.constr 0 [.constr 200 []]] }
  metadata := some (OrdMap.ofList [(674, .array [.text "paid", .map []])])

theorem laden_fits : laden.encode.satisfies (fun bytes =>
    decide (bytes.length < UInt64.size)) = true := by
  decide +kernel

end Sample

theorem Tx.encode_wellFormed_laden : ∃ bytes, Sample.laden.encode = .ok bytes ∧
    bytes.length < UInt64.size ∧
    ∃ t body witnesses flag auxiliary : Tree, t.encode = bytes ∧ t.Sealed ∧
      t.items? = some [body, witnesses, flag, auxiliary] ∧
      (∃ keys : List Nat, body.keys? = some (keys.map some) ∧ 4 ∈ keys ∧ 3 ∉ keys) ∧
      (∃ keys : List Nat, witnesses.keys? = some (keys.map some) ∧ 4 ∈ keys ∧ 5 ∉ keys) ∧
      auxiliary.keys? = some [some 674] := by
  obtain ⟨bytes, encoded, passes⟩ := Except.satisfies_iff.mp Sample.laden_fits
  have fits := of_decide_eq_true passes
  obtain ⟨t, body, witnesses, flag, auxiliary, encode, whole, _, items, ⟨_, keys, inBody, _, has⟩,
    ⟨_, kinds, inWitnesses, _, hasKind⟩, _, labels⟩ := encode_wellFormed encoded fits
  refine ⟨bytes, encoded, fits, t, body, witnesses, flag, auxiliary, encode, whole, items,
    ⟨keys, inBody, ?_, ?_⟩, ⟨kinds, inWitnesses, ?_, ?_⟩, labels⟩
  · exact (has 4).mpr rfl
  · rw [has 3]
    decide
  · exact (hasKind 4).mpr rfl
  · rw [hasKind 5]
    decide

end ConwayTx
