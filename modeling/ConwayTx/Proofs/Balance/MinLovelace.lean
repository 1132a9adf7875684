import ConwayTx.Proofs.Balance.Collateral
import ConwayTx.Proofs.Fee

namespace ConwayTx

open Cbor (Item)

def TxBody.produced (b : TxBody) : List TxOut := b.outputs ++ b.collateralReturn.toList

theorem TxBody.size_le {b : TxBody} {o : TxOut} (mem : o ∈ b.produced) :
    o.size ≤ b.encode.length := by
  suffices ∃ key value, (key, value) ∈ b.entries ∧ o.size ≤ value.encode.length by
    obtain ⟨key, value, there, within⟩ := this
    rw [encode, toItem, Item.encode, List.length_append]
    exact Nat.le_add_left_of_le (within.trans (Item.length_encode_le_encodeEntries there))
  rcases List.mem_append.mp mem with listed | returned
  · refine ⟨.nat 1, .array b.outputs.length (b.outputs.map TxOut.toItem), by simp [entries], ?_⟩
    rw [Item.encode, List.length_append]
    exact Nat.le_add_left_of_le (Item.length_encode_le_encodeAll (List.mem_map_of_mem listed))
  · have returned : b.collateralReturn = some o := Option.mem_toList.mp returned
    exact ⟨.nat 16, o.toItem, by simp [entries, optional, returned], Nat.le_refl _⟩

theorem Tx.length_body_le {tx : Tx} {bytes : Bytes} (h : tx.encode = .ok bytes) :
    tx.body.encode.length ≤ bytes.length := by
  obtain ⟨item, made, rfl⟩ := Except.map_eq_ok.mp h
  obtain ⟨metadata, _, rfl⟩ := Except.map_eq_ok.mp made
  rw [Item.encode, List.length_append]
  exact Nat.le_add_left_of_le (Item.length_encode_le_encodeAll List.mem_cons_self)

namespace Balance

variable {s : Setup} {d : Draft} {pools : Pools} {plan : Plan} {state : State} {tx : Tx}

theorem required_le_raise (c : UInt64) (o : TxOut) :
    Fee.requiredLovelace c (raise c o) ≤ (raise c o).value.lovelace := by
  simp only [raise]
  split
  · rw [Fee.requiredLovelace_withLovelace]
    exact UInt64.le_refl _
  · rename_i enough
    exact UInt64.not_lt.mp enough

theorem Settled.required_le {c : UInt64} {address : Address} {rest : Value}
    {change : Option TxOut} {dust : UInt64} (settled : Settled c address rest change dust)
    {o : TxOut} (made : change = some o) : Fee.requiredLovelace c o ≤ o.value.lovelace := by
  cases settled with
  | exact => cases made
  | output enough =>
    cases made
    exact enough
  | dust => cases made

namespace Accepted

variable (a : Accepted s d pools plan state tx)
include a

theorem required_le (planned : Planned s.params d pools plan) {o : TxOut}
    (mem : o ∈ tx.body.produced) :
    Fee.requiredLovelace s.params.coinsPerUtxoByte o ≤ o.value.lovelace := by
  rw [TxBody.produced, a.tx_outputs, planned.outputs] at mem
  rcases List.mem_append.mp mem with listed | returned
  · rcases List.mem_append.mp listed with sent | change
    · obtain ⟨asked, _, rfl⟩ := List.mem_map.mp sent
      exact required_le_raise _ _
    · exact a.settled.required_le (Option.mem_toList.mp change)
  · have returned : tx.body.collateralReturn = some o := Option.mem_toList.mp returned
    rw [a.tx_collateralReturn] at returned
    obtain ⟨c, found, change⟩ := Option.bind_eq_some_iff.mp returned
    obtain ⟨selected⟩ := a.selected found
    exact selected.split.enough o change

theorem size_le {o : TxOut} (mem : o ∈ tx.body.produced) :
    o.size ≤ s.params.maxTxSize.toNat := by
  have finished := finish_ok a.finished
  obtain ⟨bytes, encoded, fits⟩ := checkSize_ok finished.size
  rw [finished.body_eq] at mem
  calc
    o.size ≤ a.full.body.encode.length := TxBody.size_le mem
    _ ≤ bytes.length := Tx.length_body_le encoded
    _ ≤ s.params.maxTxSize.toNat := fits

end Accepted

/-- An output holds at least the least amount that would be enough for it, and what it is short of
for being written in more bytes is no more than the price of these. Between two prices, which
depend on how large transactions can be, no output is short of anything. -/
theorem outputs_hold_least (h : balance s d pools = .ok tx) :
    ∀ o ∈ tx.body.produced, ∃ least,
      Fee.Enough s.params.coinsPerUtxoByte o least ∧
      (∀ n, Fee.Enough s.params.coinsPerUtxoByte o n → least ≤ n) ∧
      least ≤ o.value.lovelace ∧
      (Fee.minLovelace s.params.coinsPerUtxoByte o).toNat ≤ o.value.lovelace.toNat +
        (Cbor.width o.value.lovelace - Cbor.width least) * s.params.coinsPerUtxoByte.toNat ∧
      (UInt16.size ≤ Fee.outputOverhead * s.params.coinsPerUtxoByte.toNat →
        (Fee.outputOverhead + s.params.maxTxSize.toNat) * s.params.coinsPerUtxoByte.toNat ≤
          UInt32.size →
        Fee.minLovelace s.params.coinsPerUtxoByte o ≤ o.value.lovelace) := by
  obtain ⟨plan, state, made, ⟨a⟩⟩ := balance_ok h
  intro o mem
  have held := a.required_le (plan_ok made) mem
  refine ⟨Fee.requiredLovelace s.params.coinsPerUtxoByte o, Fee.requiredLovelace_enough _ _,
    fun n => Fee.requiredLovelace_le, held, Fee.minLovelace_le_of_required_le held, ?_⟩
  intro low high
  have size : Fee.outputOverhead + o.size ≤ Fee.outputOverhead + s.params.maxTxSize.toNat :=
    Nat.add_le_add_left (a.size_le mem) _
  exact Fee.minLovelace_le_of_price held low ((Nat.mul_le_mul_right _ size).trans high)

end Balance

namespace Sample

def thrifty : Setup := { setup with params.coinsPerUtxoByte := 332 }

def slim : Draft where
  changeAddress := some (keyAddress 3)
  outputs := [{ address := keyAddress 2, value := .ofLovelace 65536 }]

def purse : Pools := { available := some [utxo 0 (keyAddress 1) (.ofLovelace 10000000)] }

theorem slim_passes : (balance thrifty slim purse).satisfies (fun tx =>
    tx.body.outputs.any (fun o => o.value.lovelace == 65536 &&
      Fee.minLovelace thrifty.params.coinsPerUtxoByte o == 66068)) = true := by
  decide +kernel

end Sample

theorem Balance.outputs_hold_least_slim :
    (∃ tx, balance Sample.thrifty Sample.slim Sample.purse = .ok tx ∧
      ∃ o ∈ tx.body.outputs, o.value.lovelace = 65536 ∧
        Fee.minLovelace Sample.thrifty.params.coinsPerUtxoByte o = 66068 ∧
        ∃ least, Fee.Enough Sample.thrifty.params.coinsPerUtxoByte o least ∧ least ≤ 65536 ∧
          66068 ≤ 65536 + (5 - Cbor.width least) * 332) ∧
    ∃ w tx o, Sample.run Sample.pledging = .ok (w, tx) ∧ tx.body.collateralReturn = some o ∧
      Fee.minLovelace Sample.setup.params.coinsPerUtxoByte o ≤ o.value.lovelace := by
  constructor
  · obtain ⟨tx, balanced, passes⟩ := Except.satisfies_iff.mp Sample.slim_passes
    obtain ⟨o, mem, passes⟩ := List.any_eq_true.mp passes
    simp only [Bool.and_eq_true, beq_iff_eq] at passes
    obtain ⟨lovelace, priced⟩ := passes
    obtain ⟨least, enough, _, held, short, _⟩ :=
      outputs_hold_least balanced o (List.mem_append_left _ mem)
    rw [lovelace] at held short
    rw [priced] at short
    exact ⟨tx, balanced, o, mem, lovelace, priced, least, enough, held, short⟩
  · obtain ⟨⟨w, tx⟩, ran, passes⟩ := Except.satisfies_iff.mp Sample.pledging_passes
    simp only [Bool.and_eq_true, beq_iff_eq] at passes
    obtain ⟨⟨⟨⟨_, returned⟩, _⟩, _⟩, _⟩ := passes
    obtain ⟨o, returned, _⟩ := Option.map_eq_some_iff.mp returned
    obtain ⟨_, balanced⟩ := Sample.run_ok ran
    obtain ⟨_, _, _, _, _, enough⟩ := outputs_hold_least balanced o
      (List.mem_append_right _ (Option.mem_toList.mpr returned))
    exact ⟨w, tx, o, ran, returned, enough (by decide) (by decide)⟩

end ConwayTx
