import ConwayTx.Proofs.Cbor.ReadBack
import ConwayTx.Proofs.Value.Pruned

namespace ConwayTx

open Cbor (Item Reader)
open Cbor.Reader

/-- Policies, and the names of each, are fewer than a word can count, as entries in memory are. -/
structure Assets.Fits (m : Assets) : Prop where
  policies : m.size < UInt64.size
  names : ∀ e ∈ m.toList, e.2.size < UInt64.size

namespace AssetName

theorem takes_read (n : AssetName) : read.Takes n.toItem.encode (· = n) := by
  have short : n.bytes.length < UInt64.size := Nat.lt_of_le_of_lt n.length_le (by decide)
  have known : ofBytes? n.bytes = some n := dif_pos n.length_le
  exact (takes_encodeBytes short).check_eq (by rw [known])

end AssetName

namespace Value

variable {v : Value}

def namesItem (names : OrdMap AssetName UInt64) : Item :=
  .map names.size (names.toList.map (fun n => (n.1.toItem, .nat n.2)))

theorem takes_readNames {names : OrdMap AssetName UInt64} (fits : names.size < UInt64.size) :
    ((Reader.mapOf AssetName.read Reader.nat).map OrdMap.ofList).Takes (namesItem names).encode
      (· = names) :=
  takes_ofList AssetName.toItem Item.nat fits (fun e _ => e.1.takes_read)
    (fun e _ => takes_nat_head e.2)

theorem takes_readAssets {m : Assets} (fits : m.Fits) :
    readAssets.Takes (assetsItem m).encode (· = m) := by
  have item : assetsItem m =
      .map m.size (m.toList.map (fun p => (p.1.toItem, namesItem p.2))) := rfl
  rw [item]
  refine takes_ofList Hash.toItem namesItem fits.policies (fun e _ => ?_) fun e mem => ?_
  · exact takes_hash (by decide) e.1
  · exact takes_readNames (fits.names e mem)

theorem prune_of_not_hasAssets (bare : v.hasAssets = false) : v.prune = ofLovelace v.lovelace := by
  refine eq_of_amount v.assets.prune_pruned (sum_pruned []) fun c => ?_
  rw [amount_prune]
  cases c with
  | lovelace => rfl
  | asset id => rw [amount_asset_of_not_hasAssets bare, amount_ofLovelace_asset]

theorem takes_read (fits : v.assets.Fits) : read.Takes v.toItem.encode (· = v.prune) := by
  unfold toItem
  split
  · have written : (Item.array 2 [.nat v.lovelace, assetsItem v.assets]).encode =
        Cbor.head 4 2 ++ (Cbor.head 0 v.lovelace.toNat ++ (assetsItem v.assets).encode) := by
      rw [Item.encode, Item.encodeAll, Item.encodeAll_singleton, Item.encode]
    rw [written]
    refine takes_peek_head (by decide) (by decide) fun b array => ?_
    rw [if_pos array]
    exact (takes_arrayHeader_head (by decide)).then
      ((takes_nat_head v.lovelace).then ((takes_readAssets fits).map_eq _))
  · rename_i bare
    rw [prune_of_not_hasAssets (Bool.eq_false_iff.mpr bare), Item.encode,
      ← List.append_nil (Cbor.head _ _)]
    refine takes_peek_head (by decide) v.lovelace.toNat_lt_size fun b number => ?_
    rw [if_neg (by omega), List.append_nil]
    exact (takes_nat_head v.lovelace).map_eq ofLovelace

/-- A value is read back pruned, up to where it ends: with the same lovelace and the same quantities
of all assets, and nothing besides. -/
theorem reads_back_pruned (v : Value) (fits : v.assets.Fits) :
    (∀ rest, read (v.toItem.encode ++ rest) = .ok (v.prune, rest)) ∧
    v.prune.lovelace = v.lovelace ∧ (∀ id, v.prune.quantity id = v.quantity id) ∧
    v.prune.assets.Pruned :=
  ⟨(takes_read fits).read_append, rfl, fun id => v.assets.quantity_prune id.policy id.name,
    v.assets.prune_pruned⟩

def Sample.littered : Value :=
  ⟨5, OrdMap.ofList [(Hash.zero, ∅), (⟨List.replicate 28 1, List.length_replicate⟩,
    OrdMap.ofList [(⟨[0xee], by decide⟩, 0), (⟨[0xff], by decide⟩, 0xffffffffffffffff)])]⟩

def Sample.empty : Value :=
  ⟨5, OrdMap.ofList [(Hash.zero, OrdMap.ofList [(⟨[0xee], by decide⟩, 0)])]⟩

theorem samples_read_back :
    Sample.littered.assets.Fits ∧ Sample.empty.assets.Fits ∧
    read (Sample.littered.toItem.encode ++ [0x82]) = .ok (Sample.littered.prune, [0x82]) ∧
    Sample.littered.prune = ⟨5, OrdMap.ofList [(⟨List.replicate 28 1, List.length_replicate⟩,
      OrdMap.ofList [(⟨[0xff], by decide⟩, 0xffffffffffffffff)])]⟩ ∧
    read (Sample.empty.toItem.encode ++ [0x82]) = .ok (ofLovelace 5, [0x82]) := by
  have littered : Sample.littered.assets.Fits := ⟨by decide +kernel, by decide +kernel⟩
  have empty : Sample.empty.assets.Fits := ⟨by decide +kernel, by decide +kernel⟩
  refine ⟨littered, empty, (reads_back_pruned _ littered).1 _, by decide +kernel, ?_⟩
  rw [(reads_back_pruned _ empty).1, prune_of_not_hasAssets (by decide +kernel)]
  rfl

end Value

end ConwayTx
