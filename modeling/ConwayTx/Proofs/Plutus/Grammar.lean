import ConwayTx.Plutus.Data
import ConwayTx.Proofs.Cbor.Tree
import Mathlib.Data.List.Forall2
/-!
The grammar of Plutus data over well-formed items. An item denotes what the ledger's definition of
the format says, in whatever spelling it comes; `denotes_tag_iff` lists what may stand behind a tag.
-/

namespace ConwayTx.PlutusData

open Cbor

def OwnTag (t : Nat) (c : UInt64) : Prop :=
  (c.toNat ≤ 6 ∧ t = 121 + c.toNat) ∨
    (7 ≤ c.toNat ∧ c.toNat ≤ 127 ∧ t = 1280 + (c.toNat - 7))

theorem exists_ownTag_iff {t : Nat} :
    (∃ c, OwnTag t c) ↔ (121 ≤ t ∧ t ≤ 127) ∨ (1280 ≤ t ∧ t ≤ 1400) := by
  constructor
  · rintro ⟨c, ⟨small, rfl⟩ | ⟨low, high, rfl⟩⟩ <;> omega
  · rintro (⟨low, high⟩ | ⟨low, high⟩)
    · refine ⟨UInt64.ofNat (t - 121), .inl ?_⟩
      rw [UInt64.toNat_ofNat_of_lt' (show t - 121 < UInt64.size by unfold UInt64.size; omega)]
      omega
    · refine ⟨UInt64.ofNat (t - 1280 + 7), .inr ?_⟩
      rw [UInt64.toNat_ofNat_of_lt' (show t - 1280 + 7 < UInt64.size by unfold UInt64.size; omega)]
      omega

theorem OwnTag.unique {t : Nat} {c c' : UInt64} (h : OwnTag t c) (h' : OwnTag t c') : c = c' := by
  apply UInt64.toNat_inj.mp
  obtain ⟨_, _⟩ | ⟨_, _, _⟩ := h <;> obtain ⟨_, _⟩ | ⟨_, _, _⟩ := h' <;> omega

mutual

inductive Denotes : Tree → PlutusData → Prop
  | nat {k : Nat} {h : Head k} {n : Int128} (value : n.toInt = k) : Denotes (.nat h) (.int n)
  | neg {k : Nat} {h : Head k} {n : Int128} (value : n.toInt = -1 - k) :
      Denotes (.neg h) (.int n)
  | bigNat {t : Nat} {h : Head t} {item : Tree} {b : Bytes} {n : Int128} (tag : t = 2)
      (content : item.content? = some b) (value : n.toInt = Bytes.toNat b) :
      Denotes (.tag h item) (.int n)
  | bigNeg {t : Nat} {h : Head t} {item : Tree} {b : Bytes} {n : Int128} (tag : t = 3)
      (content : item.content? = some b) (value : n.toInt = -1 - Bytes.toNat b) :
      Denotes (.tag h item) (.int n)
  | bytes {item : Tree} {b : Bytes} (content : item.content? = some b) : Denotes item (.bytes b)
  | list {item : Tree} {ts : List Tree} {ds : List PlutusData} (items : item.items? = some ts)
      (each : List.Forall₂ Denotes ts ds) : Denotes item (.list ds)
  | map {item : Tree} {es : List (Tree × Tree)} {ps : List (PlutusData × PlutusData)}
      (entries : item.entries? = some es) (each : List.Forall₂ DenotesEntry es ps) :
      Denotes item (.map ps)
  | constr {t : Nat} {h : Head t} {c : UInt64} {item : Tree} {ts : List Tree}
      {ds : List PlutusData} (own : OwnTag t c) (items : item.items? = some ts)
      (each : List.Forall₂ Denotes ts ds) : Denotes (.tag h item) (.constr c ds)
  | pair {t k : Nat} {h : Head t} {c : UInt64} {item fields : Tree} {i : Head k} {ts : List Tree}
      {ds : List PlutusData} (tag : t = 102) (two : item.items? = some [.nat i, fields])
      (number : c.toNat = k) (items : fields.items? = some ts)
      (each : List.Forall₂ Denotes ts ds) : Denotes (.tag h item) (.constr c ds)

inductive DenotesEntry : Tree × Tree → PlutusData × PlutusData → Prop
  | mk {e : Tree × Tree} {p : PlutusData × PlutusData} (key : Denotes e.1 p.1)
      (value : Denotes e.2 p.2) : DenotesEntry e p

end

def Fields (item : Tree) (ds : List PlutusData) : Prop :=
  ∃ ts, item.items? = some ts ∧ List.Forall₂ Denotes ts ds

def Mapping (item : Tree) (ps : List (PlutusData × PlutusData)) : Prop :=
  ∃ es, item.entries? = some es ∧ List.Forall₂ DenotesEntry es ps

theorem denotesEntry_iff {e : Tree × Tree} {p : PlutusData × PlutusData} :
    DenotesEntry e p ↔ Denotes e.1 p.1 ∧ Denotes e.2 p.2 :=
  ⟨fun ⟨key, value⟩ => ⟨key, value⟩, fun ⟨key, value⟩ => ⟨key, value⟩⟩

section Inversion

variable {t k : Nat} {h : Head k} {item : Tree} {d : PlutusData}

theorem denotes_nat_iff : Denotes (.nat h) d ↔ ∃ n : Int128, n.toInt = k ∧ d = .int n := by
  constructor
  · intro denotes
    cases denotes with
    | nat value => exact ⟨_, value, rfl⟩
    | bytes content => cases content
    | list items _ => cases items
    | map entries _ => cases entries
  · rintro ⟨n, value, rfl⟩
    exact .nat value

theorem denotes_neg_iff : Denotes (.neg h) d ↔ ∃ n : Int128, n.toInt = -1 - k ∧ d = .int n := by
  constructor
  · intro denotes
    cases denotes with
    | neg value => exact ⟨_, value, rfl⟩
    | bytes content => cases content
    | list items _ => cases items
    | map entries _ => cases entries
  · rintro ⟨n, value, rfl⟩
    exact .neg value

theorem denotes_tag_iff : Denotes (.tag h item) d ↔
    (k = 2 ∧ ∃ b, item.content? = some b ∧ ∃ n : Int128, n.toInt = Bytes.toNat b ∧ d = .int n) ∨
    (k = 3 ∧ ∃ b, item.content? = some b ∧
      ∃ n : Int128, n.toInt = -1 - Bytes.toNat b ∧ d = .int n) ∨
    (∃ c ds, OwnTag k c ∧ Fields item ds ∧ d = .constr c ds) ∨
    (k = 102 ∧ ∃ m, ∃ i : Head m, ∃ fields ds, item.items? = some [.nat i, fields] ∧
      Fields fields ds ∧ d = .constr (UInt64.ofNat m) ds) := by
  constructor
  · intro denotes
    cases denotes with
    | bigNat tag content value => exact .inl ⟨tag, _, content, _, value, rfl⟩
    | bigNeg tag content value => exact .inr (.inl ⟨tag, _, content, _, value, rfl⟩)
    | bytes content => cases content
    | list items _ => cases items
    | map entries _ => cases entries
    | constr own items each => exact .inr (.inr (.inl ⟨_, _, own, ⟨_, items, each⟩, rfl⟩))
    | pair tag two number items each =>
      refine .inr (.inr (.inr ⟨tag, _, _, _, _, two, ⟨_, items, each⟩, ?_⟩))
      rw [← number, UInt64.ofNat_toNat]
  · rintro (⟨tag, b, content, n, value, rfl⟩ | ⟨tag, b, content, n, value, rfl⟩ |
      ⟨c, ds, own, ⟨ts, items, each⟩, rfl⟩ | ⟨tag, m, i, fields, ds, two, ⟨ts, items, each⟩, rfl⟩)
    · exact .bigNat tag content value
    · exact .bigNeg tag content value
    · exact .constr own items each
    · exact .pair tag two (UInt64.toNat_ofNat_of_lt' i.lt_size) items each

theorem denotes_iff (wide : 2 ≤ item.major) (untagged : item.major ≠ 6) : Denotes item d ↔
    (∃ b, item.content? = some b ∧ d = .bytes b) ∨ (∃ ds, Fields item ds ∧ d = .list ds) ∨
    (∃ ps, Mapping item ps ∧ d = .map ps) := by
  constructor
  · intro denotes
    cases denotes with
    | nat | neg => simp [Tree.major] at wide
    | bigNat | bigNeg | constr | pair => exact absurd rfl untagged
    | bytes content => exact .inl ⟨_, content, rfl⟩
    | list items each => exact .inr (.inl ⟨_, ⟨_, items, each⟩, rfl⟩)
    | map entries each => exact .inr (.inr ⟨_, ⟨_, entries, each⟩, rfl⟩)
  · rintro (⟨b, content, rfl⟩ | ⟨ds, ⟨ts, items, each⟩, rfl⟩ | ⟨ps, ⟨es, entries, each⟩, rfl⟩)
    · exact .bytes content
    · exact .list items each
    · exact .map entries each

end Inversion

end ConwayTx.PlutusData
