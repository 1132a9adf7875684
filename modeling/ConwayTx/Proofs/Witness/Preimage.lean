import ConwayTx.Params
import ConwayTx.Proofs.Cbor.Delimiting
import ConwayTx.Proofs.Except
import ConwayTx.Proofs.OrdMap
import ConwayTx.Proofs.Plutus.RoundTrip
import ConwayTx.Tx.Basic
/-!
What the digest of the scripts is taken of can be taken apart again. Redeemers and datums delimit
themselves and stand behind one another without a separator; whether there are datums is told from
the byte that comes next, since they are written as an array and the views as a map.
-/

namespace ConwayTx

open Cbor (Item Delimited)
open Ranked (Precedes)

namespace Cbor.Item

theorem nat_delimited (n : UInt64) : Delimited (fun n => (nat n).encode) n := by
  intro n' r r' h
  obtain ⟨_, same, rest⟩ := head_append_inj 0 0 n.toNat_lt_size n'.toNat_lt_size h
  exact ⟨UInt64.toNat_inj.mp same, rest⟩

theorem encode_pair (a b : Item) :
    (array 2 [a, b]).encode = head 4 2 ++ (a.encode ++ b.encode) := by
  simp [encode, encodeAll]

end Cbor.Item

structure PlutusData.AllFit (ds : List PlutusData) : Prop where
  count : ds.length < UInt64.size
  each : ∀ d ∈ ds, d.MapsFit

theorem Purpose.ofNat_code_inj {p q : Purpose}
    (h : UInt64.ofNat p.code = UInt64.ofNat q.code) : p = q := by
  cases p <;> cases q <;> first | rfl | cases h

theorem RedeemerPointer.delimited (p : RedeemerPointer) :
    Delimited (fun p => p.toItem.encode) p := by
  rintro ⟨purpose', index'⟩ r r' h
  obtain ⟨purpose, index⟩ := p
  simp only [toItem, Item.encode_pair, List.append_assoc] at h
  obtain ⟨codes, later⟩ := Item.nat_delimited _ _ _ _ (List.append_cancel_left h)
  obtain ⟨indices, rest⟩ := Item.nat_delimited _ _ _ _ later
  obtain rfl := Purpose.ofNat_code_inj codes
  obtain rfl := UInt32.toUInt64_inj.mp indices
  exact ⟨rfl, rest⟩

theorem ExUnits.delimited (u : ExUnits) : Delimited (fun u => u.toItem.encode) u := by
  rintro ⟨mem', steps'⟩ r r' h
  obtain ⟨mem, steps⟩ := u
  simp only [toItem, Item.encode_pair, List.append_assoc] at h
  obtain ⟨rfl, later⟩ := Item.nat_delimited _ _ _ _ (List.append_cancel_left h)
  obtain ⟨rfl, rest⟩ := Item.nat_delimited _ _ _ _ later
  exact ⟨rfl, rest⟩

namespace Redeemer

variable {rs rs' : List Redeemer}

def entry (r : Redeemer) : Bytes :=
  r.pointer.toItem.encode ++ (Item.array 2 [r.data.toItem, r.units.toItem]).encode

theorem entry_append_inj {r r' : Redeemer} {x x' : Bytes} (fits : r.data.MapsFit)
    (fits' : r'.data.MapsFit) (h : r.entry ++ x = r'.entry ++ x') : r = r' ∧ x = x' := by
  obtain ⟨pointer, data, units⟩ := r
  obtain ⟨pointer', data', units'⟩ := r'
  simp only [entry, Item.encode_pair, List.append_assoc] at h
  obtain ⟨rfl, both⟩ := RedeemerPointer.delimited _ _ _ _ h
  obtain ⟨rfl, last⟩ := PlutusData.eq_of_append_eq fits fits' (List.append_cancel_left both)
  obtain ⟨rfl, rest⟩ := ExUnits.delimited _ _ _ _ last
  exact ⟨rfl, rest⟩

theorem mapItem_of_sorted (sorted : (rs.map pointer).Pairwise Precedes) :
    mapItem rs = .map rs.length
      (rs.map (fun r => (r.pointer.toItem, .array 2 [r.data.toItem, r.units.toItem]))) := by
  rw [mapItem, Ranked.sortOn_of_sorted sorted]

theorem encode_mapItem (sorted : (rs.map pointer).Pairwise Precedes) :
    (mapItem rs).encode = Cbor.head 5 rs.length ++ rs.flatMap entry := by
  rw [mapItem_of_sorted sorted, Item.encode, Item.encodeEntries_eq, List.flatMap_map]
  rfl

theorem allFit (sorted : (rs.map pointer).Pairwise Precedes)
    (fits : (mapItem rs).encode.length < UInt64.size) : PlutusData.AllFit (rs.map data) := by
  rw [mapItem_of_sorted sorted] at fits
  constructor
  · have count := (Item.count_entries_le _ _).trans_lt fits
    rwa [List.length_map] at count ⊢
  · rw [List.forall_mem_map]
    intro r mem
    have pair : Item.array 2 [r.data.toItem, r.units.toItem] ∈ Item.children (.map rs.length
        (rs.map (fun r => (r.pointer.toItem, .array 2 [r.data.toItem, r.units.toItem])))) :=
      List.mem_flatMap.mpr ⟨_, List.mem_map_of_mem mem, by simp⟩
    have data : r.data.toItem ∈ (Item.array 2 [r.data.toItem, r.units.toItem]).children :=
      List.mem_cons_self
    have within := (Item.length_encode_le data).trans (Item.length_encode_le pair)
    exact PlutusData.mapsFit_of_fits _ (within.trans_lt fits)

theorem mapItem_append_inj {x x' : Bytes} (sorted : (rs.map pointer).Pairwise Precedes)
    (sorted' : (rs'.map pointer).Pairwise Precedes) (fit : PlutusData.AllFit (rs.map data))
    (fit' : PlutusData.AllFit (rs'.map data))
    (h : (mapItem rs).encode ++ x = (mapItem rs').encode ++ x') : rs = rs' ∧ x = x' := by
  have each := List.forall_mem_map.mp fit.each
  have each' := List.forall_mem_map.mp fit'.each
  have small := fit.count
  have small' := fit'.count
  rw [List.length_map] at small small'
  rw [encode_mapItem sorted, encode_mapItem sorted', List.append_assoc, List.append_assoc] at h
  obtain ⟨_, count, entries⟩ := Cbor.head_append_inj 5 5 small small' h
  exact Cbor.flatMap_append_inj
    (fun r mem r' mem' _ _ => entry_append_inj (each r mem) (each' r' mem')) count entries

end Redeemer

namespace CostModels

def Views (views : Bytes) : Prop :=
  ∃ (m : CostModels) (languages : OrdSet Language), m.languageViews languages = .ok views

theorem Views.exists_head {views : Bytes} (viewed : Views views) :
    ∃ n < UInt64.size, ∃ rest, views = Cbor.head 5 n ++ rest := by
  obtain ⟨m, languages, viewed⟩ := viewed
  obtain ⟨entries, each, made⟩ := Except.bind_eq_ok.mp viewed
  obtain rfl := Except.pure_eq_ok.mp made
  refine ⟨_, ?_, _, rfl⟩
  exact (List.length_filter_le _ viewOrder).trans_lt (by decide)

end CostModels

namespace Witnesses

variable {ds ds' : List PlutusData} {views views' : Bytes}

def datumBytes (ds : List PlutusData) : Bytes :=
  if ds.isEmpty then [] else (datumsItem ds).encode

theorem datumBytes_of_ne (some : ds ≠ []) :
    datumBytes ds = Cbor.head 4 ds.length ++ ds.flatMap PlutusData.encode := by
  rw [datumBytes, if_neg (by simpa using some), datumsItem, Item.encode, Item.encodeAll_eq,
    List.flatMap_map]
  rfl

theorem allFit (fits : (datumBytes ds).length < UInt64.size) : PlutusData.AllFit ds := by
  by_cases none : ds = []
  · subst none
    exact ⟨by decide, List.forall_mem_nil _⟩
  rw [datumBytes, if_neg (by simpa using none)] at fits
  constructor
  · have count := (Item.count_children_le (datumsItem ds)).trans_lt fits
    rwa [datumsItem, Item.children, List.length_map] at count
  · intro d mem
    have inside : d.toItem ∈ (datumsItem ds).children := List.mem_map_of_mem mem
    exact PlutusData.mapsFit_of_fits d ((Item.length_encode_le inside).trans_lt fits)

theorem datumBytes_append_ne (fit : PlutusData.AllFit ds) (some : ds ≠ [])
    (viewed : CostModels.Views views') : datumBytes ds ++ views ≠ views' := by
  intro h
  obtain ⟨n, small, rest, rfl⟩ := viewed.exists_head
  rw [datumBytes_of_ne some, List.append_assoc] at h
  obtain ⟨major, _⟩ := Cbor.head_append_inj 4 5 fit.count small h
  exact absurd major (by decide)

theorem datumBytes_append_inj (fit : PlutusData.AllFit ds) (fit' : PlutusData.AllFit ds')
    (viewed : CostModels.Views views) (viewed' : CostModels.Views views')
    (h : datumBytes ds ++ views = datumBytes ds' ++ views') : ds = ds' ∧ views = views' := by
  by_cases none : ds = []
  · by_cases none' : ds' = []
    · subst none none'
      exact ⟨rfl, h⟩
    · subst none
      exact absurd h.symm (datumBytes_append_ne fit' none' viewed)
  · by_cases none' : ds' = []
    · subst none'
      exact absurd h (datumBytes_append_ne fit none viewed')
    · rw [datumBytes_of_ne none, datumBytes_of_ne none', List.append_assoc, List.append_assoc] at h
      obtain ⟨_, count, h⟩ := Cbor.head_append_inj 4 4 fit.count fit'.count h
      exact Cbor.flatMap_append_inj
        (fun d mem d' mem' _ _ => PlutusData.eq_of_append_eq (fit.each d mem) (fit'.each d' mem'))
        count h

end Witnesses

section Preimage

variable {rs : List Redeemer} {ds : List PlutusData} {views : Bytes} (run : rs ≠ [])
include run

theorem integrityPreimage_of_ne : integrityPreimage rs ds views =
    (Redeemer.mapItem rs).encode ++ (Witnesses.datumBytes ds ++ views) := by
  have some : ¬ rs.isEmpty = true := by simpa using run
  rw [integrityPreimage, if_neg some, List.append_assoc]
  rfl

variable (sorted : (rs.map Redeemer.pointer).Pairwise Precedes)
  (fits : (integrityPreimage rs ds views).length < UInt64.size)
include sorted fits

theorem integrityPreimage_allFit :
    PlutusData.AllFit (rs.map Redeemer.data) ∧ PlutusData.AllFit ds := by
  rw [integrityPreimage_of_ne run, List.length_append, List.length_append] at fits
  exact ⟨Redeemer.allFit sorted (by omega), Witnesses.allFit (by omega)⟩

end Preimage

/-- Redeemers in the order of their pointers, datums and views are told from the bytes that the
digest of the scripts is taken of, where a word can count these, as it can those of anything in
memory. And these are not the bytes of anything without redeemers. -/
theorem integrityPreimage_unambiguous {rs : List Redeemer} {ds : List PlutusData} {views : Bytes}
    (run : rs ≠ []) (sorted : (rs.map Redeemer.pointer).Pairwise Precedes)
    (viewed : CostModels.Views views)
    (fits : (integrityPreimage rs ds views).length < UInt64.size) :
    (∀ rs' ds' views', rs' ≠ [] → (rs'.map Redeemer.pointer).Pairwise Precedes →
      CostModels.Views views' → integrityPreimage rs ds views = integrityPreimage rs' ds' views' →
      rs = rs' ∧ ds = ds' ∧ views = views') ∧
    ∀ ds' views', integrityPreimage rs ds views ≠ integrityPreimage [] ds' views' := by
  obtain ⟨redeemers, datums⟩ := integrityPreimage_allFit run sorted fits
  constructor
  · intro rs' ds' views' run' sorted' viewed' same
    obtain ⟨redeemers', datums'⟩ := integrityPreimage_allFit run' sorted' (same ▸ fits)
    rw [integrityPreimage_of_ne run, integrityPreimage_of_ne run'] at same
    obtain ⟨rfl, behind⟩ := Redeemer.mapItem_append_inj sorted sorted' redeemers redeemers' same
    exact ⟨rfl, Witnesses.datumBytes_append_inj datums datums' viewed viewed' behind⟩
  · intro ds' views' same
    have bare : integrityPreimage [] ds' views' =
        Cbor.head 5 0 ++ (Witnesses.datumBytes ds' ++ [0xa0]) := by
      rw [integrityPreimage, Redeemer.encode_mapItem .nil, List.append_assoc]
      rfl
    have small := redeemers.count
    rw [List.length_map] at small
    rw [integrityPreimage_of_ne run, bare, Redeemer.encode_mapItem sorted, List.append_assoc]
      at same
    obtain ⟨_, none, _⟩ := Cbor.head_append_inj 5 5 small (by decide) same
    exact run (List.length_eq_zero_iff.mp none)

namespace Sample

def models : CostModels := ⟨some [1, -1], some [23, 24], none⟩

def prompts : List Redeemer :=
  [⟨⟨.spend, 24⟩, .list [.bytes [0x80]], ⟨23, 24⟩⟩, ⟨⟨.mint, 0⟩, .constr 0 [], ⟨255, 256⟩⟩]

def reversed : List Redeemer :=
  [⟨⟨.spend, 24⟩, .list [.bytes [0x80]], ⟨24, 23⟩⟩, ⟨⟨.mint, 0⟩, .constr 0 [], ⟨255, 256⟩⟩]

theorem models_passes : (models.languageViews (OrdSet.ofList [.v1, .v2])).satisfies (fun views =>
    views.length == 13) = true := by
  decide +kernel

theorem prompts_sorted : (prompts.map Redeemer.pointer).Pairwise Precedes := by
  decide

theorem length_prompts (views : Bytes) :
    (integrityPreimage prompts [.list []] views).length = 29 + views.length := by
  have run : prompts ≠ [] := List.cons_ne_nil _ _
  rw [integrityPreimage_of_ne run, Redeemer.encode_mapItem prompts_sorted, ← List.append_assoc,
    List.length_append]
  rfl

end Sample

theorem integrityPreimage_unambiguous_prompts :
    ∃ views, Sample.models.languageViews (OrdSet.ofList [.v1, .v2]) = .ok views ∧
      (integrityPreimage Sample.prompts [.list []] views).length = 42 ∧
      integrityPreimage Sample.prompts [.list []] views ≠
        integrityPreimage Sample.reversed [.list []] views ∧
      integrityPreimage Sample.prompts [.list []] views ≠
        integrityPreimage Sample.prompts [] views ∧
      ∀ ds views', integrityPreimage Sample.prompts [.list []] views ≠
        integrityPreimage [] ds views' := by
  obtain ⟨views, viewed, passes⟩ := Except.satisfies_iff.mp Sample.models_passes
  have length : (integrityPreimage Sample.prompts [.list []] views).length = 42 := by
    rw [Sample.length_prompts, eq_of_beq passes]
  have fits : (integrityPreimage Sample.prompts [.list []] views).length < UInt64.size := by
    rw [length]
    decide
  have known : CostModels.Views views := ⟨_, _, viewed⟩
  obtain ⟨apart, bare⟩ :=
    integrityPreimage_unambiguous (List.cons_ne_nil _ _) Sample.prompts_sorted known fits
  refine ⟨views, viewed, length, fun same => ?_, fun same => ?_, bare⟩
  · obtain ⟨redeemers, _⟩ := apart _ _ _ (List.cons_ne_nil _ _) (by decide) known same
    cases redeemers
  · obtain ⟨_, datums, _⟩ := apart _ _ _ (List.cons_ne_nil _ _) (by decide) known same
    cases datums

end ConwayTx
