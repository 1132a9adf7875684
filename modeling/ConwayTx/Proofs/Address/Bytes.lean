import ConwayTx.Utxo
import ConwayTx.Proofs.Except
import ConwayTx.Proofs.VarNat
/-!
The layouts of addresses. Each kind of address is described once, by the byte strings that are read
as it; that writing is undone by reading, and which byte strings are written back as they were
read, both follow.
-/

namespace ConwayTx

open VarNat (encode)

theorem AddressError.hash28_eq_ok_iff {bs : Bytes} {h : Hash 28} :
    AddressError.hash28 bs = .ok h ↔ bs = h.bytes := by
  unfold AddressError.hash28 Hash.ofBytes?
  constructor
  · intro read
    split at read
    · rename_i found
      split at found
      · cases found
        cases read
        rfl
      · cases found
    · cases read
  · rintro rfl
    simp [h.length_bytes]

namespace Pointer

inductive Spells : (bs : Bytes) → (p : Pointer) → (rest : Bytes) → Prop
  | intro {slot txIndex certIndex rest : Bytes} {p : Pointer} :
    VarNat.Spells slot p.slot → VarNat.Spells txIndex p.txIndex →
    VarNat.Spells certIndex p.certIndex → Spells (slot ++ (txIndex ++ (certIndex ++ rest))) p rest

def after (bs : Bytes) : Bytes := (VarNat.read bs).2

def leftover (bs : Bytes) : Bytes := after (after (after bs))

def Unpadded (bs : Bytes) : Prop :=
  VarNat.Unpadded bs ∧ VarNat.Unpadded (after bs) ∧ VarNat.Unpadded (after (after bs))

instance (bs : Bytes) : Decidable (Unpadded bs) := inferInstanceAs (Decidable (_ ∧ _))

theorem ofBytes_eq_ok_iff {bs : Bytes} {p : Pointer} :
    ofBytes bs = .ok p ↔ ∃ rest, Spells bs p rest := by
  simp only [ofBytes, Except.bind_eq_ok, Prod.exists, VarNat.next_eq_ok_iff]
  constructor
  · rintro ⟨_, _, ⟨_, rfl, slot⟩, _, _, ⟨_, rfl, txIndex⟩, _, rest, ⟨_, rfl, certIndex⟩, made⟩
    obtain rfl := Except.pure_eq_ok.mp made
    exact ⟨rest, .intro slot txIndex certIndex⟩
  · rintro ⟨rest, ⟨slot, txIndex, certIndex⟩⟩
    exact ⟨_, _, ⟨_, rfl, slot⟩, _, _, ⟨_, rfl, txIndex⟩, _, _, ⟨_, rfl, certIndex⟩, rfl⟩

theorem after_append {front : Bytes} {n : UInt64} (h : VarNat.Spells front n) (rest : Bytes) :
    after (front ++ rest) = rest :=
  congrArg Prod.snd (VarNat.readFrom_of_spells h rest)

theorem Spells.leftover_eq {bs rest : Bytes} {p : Pointer} (h : Spells bs p rest) :
    leftover bs = rest := by
  obtain ⟨slot, txIndex, certIndex⟩ := h
  rw [leftover, after_append slot, after_append txIndex, after_append certIndex]

theorem unpadded_append_iff {front : Bytes} {n : UInt64} (h : VarNat.Spells front n)
    (rest : Bytes) : VarNat.Unpadded (front ++ rest) ↔ front = encode n := by
  rw [h.eq_encode_iff, VarNat.Unpadded, VarNat.Unpadded]
  cases h <;> simp

theorem unpadded_iff_parts {slot txIndex certIndex : Bytes} {p : Pointer}
    (first : VarNat.Spells slot p.slot) (second : VarNat.Spells txIndex p.txIndex)
    (third : VarNat.Spells certIndex p.certIndex) (rest : Bytes) :
    Unpadded (slot ++ (txIndex ++ (certIndex ++ rest))) ↔
      slot = encode p.slot ∧ txIndex = encode p.txIndex ∧ certIndex = encode p.certIndex := by
  rw [Unpadded, after_append first, after_append second, unpadded_append_iff first,
    unpadded_append_iff second, unpadded_append_iff third]

theorem toBytes_spells (p : Pointer) : Spells p.toBytes p [] :=
  .intro (VarNat.encode_spells _) (VarNat.encode_spells _) (VarNat.encode_spells _)

theorem ofBytes_toBytes (p : Pointer) : ofBytes p.toBytes = .ok p :=
  ofBytes_eq_ok_iff.mpr ⟨[], p.toBytes_spells⟩

theorem unpadded_toBytes (p : Pointer) : Unpadded p.toBytes :=
  (unpadded_iff_parts (VarNat.encode_spells _) (VarNat.encode_spells _) (VarNat.encode_spells _)
    []).mpr ⟨rfl, rfl, rfl⟩

theorem Spells.toBytes_eq_iff {bs : Bytes} {p : Pointer} (h : Spells bs p []) :
    p.toBytes = bs ↔ Unpadded bs := by
  constructor
  · rintro rfl
    exact p.unpadded_toBytes
  · intro unpadded
    obtain ⟨first, second, third⟩ := h
    obtain ⟨rfl, rfl, rfl⟩ := (unpadded_iff_parts first second third []).mp unpadded
    rfl

theorem length_toBytes_le (p : Pointer) : p.toBytes.length ≤ 30 := by
  have slot := VarNat.length_encode_le p.slot
  have txIndex := VarNat.length_encode_le p.txIndex
  have certIndex := VarNat.length_encode_le p.certIndex
  simp only [toBytes, VarNat.encodeAll, List.flatMap_cons, List.flatMap_nil, List.length_append,
    List.length_nil]
  omega

end Pointer

namespace Network

theorem toNat_headerBits_le (n : Network) : n.headerBits.toNat ≤ 1 := by
  cases n <;> decide

theorem toNat_headerBits (n : Network) : n.headerBits.toNat = if n = testnet then 0 else 1 := by
  cases n <;> rfl

theorem tag_eq_iff {header : UInt8} {n : Network} (h : ofHeader header = n) :
    header.toNat % 16 = n.headerBits.toNat ↔ header.toNat % 16 ≤ 1 := by
  subst h
  rw [toNat_headerBits, ofHeader]
  split
  · simp_all
  · simp
    omega

theorem toNat_header {kind : UInt8} (small : kind.toNat ≤ 15) (n : Network) :
    (kind * 16 + n.headerBits).toNat = kind.toNat * 16 + n.headerBits.toNat := by
  have tag := n.toNat_headerBits_le
  have sixteen : (16 : UInt8).toNat = 16 := rfl
  rw [UInt8.toNat_add, UInt8.toNat_mul, sixteen]
  omega

theorem ofHeader_eq_of_tag {header : UInt8} {n : Network}
    (h : header.toNat % 16 = n.headerBits.toNat) : ofHeader header = n := by
  rw [ofHeader, h, toNat_headerBits]
  cases n <;> rfl

end Network

namespace Delegation

def layout : Delegation → Nat
  | .stake (.key _) => 0
  | .stake (.script _) => 1
  | .pointer _ => 2
  | .none => 3

def Spells (tail : Bytes) : Delegation → Prop
  | .stake c => tail = c.hash.bytes
  | .pointer p => ∃ rest, p.Spells tail rest
  | .none => tail = []

end Delegation

namespace ShelleyAddress

variable {kind length : Nat} {tail : Bytes} {d : Delegation}

theorem readDelegation_eq_ok_iff (small : kind ≤ 7) :
    readDelegation kind length tail = .ok d ↔ kind / 2 = d.layout ∧ d.Spells tail := by
  constructor
  · intro read
    unfold readDelegation at read
    split at read
    · rename_i layout
      split at read
      · cases read
      · obtain ⟨h, found, rfl⟩ := Except.map_eq_ok.mp read
        exact ⟨layout, AddressError.hash28_eq_ok_iff.mp found⟩
    · rename_i layout
      split at read
      · cases read
      · obtain ⟨h, found, rfl⟩ := Except.map_eq_ok.mp read
        exact ⟨layout, AddressError.hash28_eq_ok_iff.mp found⟩
    · rename_i layout
      split at read
      · rename_i p found
        cases read
        exact ⟨layout, Pointer.ofBytes_eq_ok_iff.mp found⟩
      · cases read
    · rename_i notKey notScript notPointer
      split at read
      · rename_i nothing
        cases read
        have other : kind / 2 ≠ 0 ∧ kind / 2 ≠ 1 ∧ kind / 2 ≠ 2 := ⟨notKey, notScript, notPointer⟩
        have layout : kind / 2 = 3 := by omega
        exact ⟨layout, List.isEmpty_iff.mp nothing⟩
      · cases read
  · rintro ⟨layout, spelled⟩
    unfold readDelegation
    rw [layout]
    cases d with
    | stake c =>
      have whole : AddressError.hash28 tail = .ok c.hash :=
        AddressError.hash28_eq_ok_iff.mpr spelled
      have width : tail.length = 28 := by
        rw [spelled]
        exact c.hash.length_bytes
      cases c <;> simp [Delegation.layout, width, whole, Except.map, Credential.hash]
    | pointer p => simp [Delegation.layout, Pointer.ofBytes_eq_ok_iff.mpr spelled]
    | none => simp [Delegation.layout, show tail = [] from spelled]

theorem toNat_kind (a : ShelleyAddress) :
    a.kind.toNat = a.payment.isScript.toNat + 2 * a.delegation.layout := by
  obtain ⟨_, _ | _, _ | ⟨_ | _⟩ | _⟩ := a <;> rfl

theorem toNat_kind_le (a : ShelleyAddress) : a.kind.toNat ≤ 7 := by
  rw [toNat_kind]
  have payment := a.payment.isScript.toNat_le
  have delegation : a.delegation.layout ≤ 3 := by
    obtain ⟨_, _, _ | ⟨_ | _⟩ | _⟩ := a <;> simp [Delegation.layout]
  omega

theorem ofBytes_eq_ok_iff {bs : Bytes} {a : ShelleyAddress} : ofBytes bs = .ok a ↔
    ∃ header tail, bs = header :: (a.payment.hash.bytes ++ tail) ∧
      header.toNat / 16 = a.kind.toNat ∧ Network.ofHeader header = a.network ∧
      a.delegation.Spells tail := by
  constructor
  · intro read
    obtain _ | ⟨header, body⟩ := bs
    · cases read
    simp only [ofBytes] at read
    split at read
    · cases read
    split at read
    · cases read
    rename_i small _
    obtain ⟨h, front, read⟩ := Except.bind_eq_ok.mp read
    obtain ⟨d, back, read⟩ := Except.bind_eq_ok.mp read
    obtain rfl := Except.pure_eq_ok.mp read
    rw [AddressError.hash28_eq_ok_iff] at front
    obtain ⟨layout, spelled⟩ := (readDelegation_eq_ok_iff (by omega)).mp back
    refine ⟨header, body.drop 28, ?_, ?_, rfl, spelled⟩
    · have hash : (if header.toNat / 16 % 2 = 0 then Credential.key h
          else Credential.script h).hash = h := by
        split <;> rfl
      rw [hash, ← front, List.take_append_drop]
    · rw [toNat_kind, ← layout]
      dsimp only
      split
      · simp [Credential.isScript, Credential.scriptHash?]
        omega
      · simp [Credential.isScript, Credential.scriptHash?]
        omega
  · rintro ⟨header, tail, rfl, kind, network, spelled⟩
    have width := a.payment.hash.length_bytes
    have small := a.toNat_kind_le
    have layout : a.kind.toNat / 2 = a.delegation.layout := by
      have := a.payment.isScript.toNat_le
      rw [toNat_kind]
      omega
    have payment : (if a.kind.toNat % 2 = 0 then Credential.key a.payment.hash
        else Credential.script a.payment.hash) = a.payment := by
      rw [toNat_kind]
      obtain ⟨_, _ | _, _⟩ := a <;>
        simp [Credential.isScript, Credential.scriptHash?, Credential.hash]
    have long : ¬ (header :: (a.payment.hash.bytes ++ tail)).length < 29 := by
      rw [List.length_cons, List.length_append]
      omega
    have hash : AddressError.hash28 a.payment.hash.bytes = .ok a.payment.hash :=
      AddressError.hash28_eq_ok_iff.mpr rfl
    have delegation (length : Nat) :
        readDelegation a.kind.toNat length tail = .ok a.delegation :=
      (readDelegation_eq_ok_iff small).mpr ⟨layout, spelled⟩
    rw [ofBytes, kind, if_neg (by omega), if_neg long, List.take_left' width,
      List.drop_left' width, hash]
    simp [bind, Except.bind, delegation, payment, network]

theorem spells_delegationBytes (a : ShelleyAddress) : a.delegation.Spells a.delegationBytes := by
  obtain ⟨_, _, d⟩ := a
  cases d with
  | none => rfl
  | stake c => rfl
  | pointer p => exact ⟨[], p.toBytes_spells⟩

theorem ofBytes_toBytes (a : ShelleyAddress) : ofBytes a.toBytes = .ok a := by
  have header := Network.toNat_header (Nat.le_trans a.toNat_kind_le (by decide)) a.network
  have tag := a.network.toNat_headerBits_le
  refine ofBytes_eq_ok_iff.mpr ⟨_, _, rfl, ?_, ?_, a.spells_delegationBytes⟩
  · rw [header]
    omega
  · apply Network.ofHeader_eq_of_tag
    rw [header]
    omega

theorem delegationBytes_eq_iff {a : ShelleyAddress} {tail : Bytes}
    (spelled : a.delegation.Spells tail)
    (ended : a.delegation.layout = 2 → Pointer.leftover tail = []) :
    a.delegationBytes = tail ↔ (a.delegation.layout = 2 → Pointer.Unpadded tail) := by
  obtain ⟨network, payment, d⟩ := a
  cases d with
  | none => exact iff_of_true (Eq.symm spelled) (by simp [Delegation.layout])
  | stake c => exact iff_of_true (Eq.symm spelled) (by cases c <;> simp [Delegation.layout])
  | pointer p =>
    obtain ⟨rest, spelled⟩ := spelled
    have nothing : rest = [] := spelled.leftover_eq.symm.trans (ended rfl)
    subst nothing
    exact ⟨fun same _ => spelled.toBytes_eq_iff.mp same,
      fun unpadded => spelled.toBytes_eq_iff.mpr (unpadded rfl)⟩

theorem toBytes_eq_iff {a : ShelleyAddress} {header : UInt8} {tail : Bytes}
    (kind : header.toNat / 16 = a.kind.toNat) (network : Network.ofHeader header = a.network) :
    a.toBytes = header :: (a.payment.hash.bytes ++ tail) ↔
      header.toNat % 16 ≤ 1 ∧ a.delegationBytes = tail := by
  have first := Network.toNat_header (Nat.le_trans a.toNat_kind_le (by decide)) a.network
  have tag := a.network.toNat_headerBits_le
  rw [toBytes, List.cons.injEq, List.append_cancel_left_eq, ← Network.tag_eq_iff network,
    ← UInt8.toNat_inj, first]
  refine and_congr_left' ?_
  omega

end ShelleyAddress

namespace StakeAddress

theorem ofBytes_eq_ok_iff {bs : Bytes} {a : StakeAddress} : ofBytes bs = .ok a ↔
    ∃ header, bs = header :: a.credential.hash.bytes ∧
      header.toNat / 16 = 14 + a.credential.isScript.toNat ∧
      Network.ofHeader header = a.network := by
  constructor
  · intro read
    obtain _ | ⟨header, body⟩ := bs
    · cases read
    simp only [ofBytes] at read
    split at read
    · cases read
    obtain ⟨h, found, made⟩ := Except.bind_eq_ok.mp read
    obtain rfl := AddressError.hash28_eq_ok_iff.mp found
    split at made
    · rename_i kind
      obtain rfl := Except.pure_eq_ok.mp made
      exact ⟨header, rfl, kind, rfl⟩
    · rename_i kind
      obtain rfl := Except.pure_eq_ok.mp made
      exact ⟨header, rfl, kind, rfl⟩
    · cases made
  · rintro ⟨header, rfl, kind, network⟩
    have width := a.credential.hash.length_bytes
    have long : (header :: a.credential.hash.bytes).length = 29 := by
      rw [List.length_cons, width]
    have hash : AddressError.hash28 a.credential.hash.bytes = .ok a.credential.hash :=
      AddressError.hash28_eq_ok_iff.mpr rfl
    rw [ofBytes, if_neg (not_not_intro long), hash, kind, network]
    obtain ⟨_, _ | _⟩ := a <;> rfl

theorem toNat_header (a : StakeAddress) :
    ((if a.credential.isScript then 0xf0 else 0xe0 : UInt8) + a.network.headerBits).toNat =
      (14 + a.credential.isScript.toNat) * 16 + a.network.headerBits.toNat := by
  obtain ⟨_ | _, _ | _⟩ := a <;> rfl

theorem toBytes_eq_iff {a : StakeAddress} {header : UInt8}
    (kind : header.toNat / 16 = 14 + a.credential.isScript.toNat)
    (network : Network.ofHeader header = a.network) :
    a.toBytes = header :: a.credential.hash.bytes ↔ header.toNat % 16 ≤ 1 := by
  have tag := a.network.toNat_headerBits_le
  rw [toBytes, List.cons.injEq, and_iff_left rfl, ← Network.tag_eq_iff network, ← UInt8.toNat_inj,
    toNat_header]
  omega

theorem ofBytes_toBytes (a : StakeAddress) : ofBytes a.toBytes = .ok a := by
  have header := a.toNat_header
  have tag := a.network.toNat_headerBits_le
  refine ofBytes_eq_ok_iff.mpr ⟨_, rfl, ?_, ?_⟩
  · rw [header]
    omega
  · apply Network.ofHeader_eq_of_tag
    rw [header]
    omega

end StakeAddress

namespace Address

variable {bs : Bytes}

theorem ofBytes_cases {a : Address} (h : ofBytes bs = .ok a) :
    (∃ b, a = shelley b ∧ ShelleyAddress.ofBytes bs = .ok b) ∨
    (a = byron bs ∧ ∃ header body, bs = header :: body ∧ header.toNat / 16 = 8) ∨
    (∃ b, a = stake b ∧ StakeAddress.ofBytes bs = .ok b) := by
  obtain _ | ⟨header, body⟩ := bs
  · cases h
  simp only [ofBytes] at h
  split at h
  · obtain ⟨b, found, rfl⟩ := Except.map_eq_ok.mp h
    exact .inl ⟨b, rfl, found⟩
  split at h
  · rename_i kind
    cases h
    exact .inr (.inl ⟨rfl, header, body, rfl, kind⟩)
  split at h
  · obtain ⟨b, found, rfl⟩ := Except.map_eq_ok.mp h
    exact .inr (.inr ⟨b, rfl, found⟩)
  · cases h

theorem ofBytes_of_shelley {b : ShelleyAddress} (h : ShelleyAddress.ofBytes bs = .ok b) :
    ofBytes bs = .ok (shelley b) := by
  obtain ⟨header, tail, rfl, kind, _⟩ := ShelleyAddress.ofBytes_eq_ok_iff.mp h
  have small : header.toNat / 16 ≤ 7 := by
    rw [kind]
    exact b.toNat_kind_le
  rw [ofBytes, if_pos small, h]
  rfl

theorem ofBytes_of_stake {b : StakeAddress} (h : StakeAddress.ofBytes bs = .ok b) :
    ofBytes bs = .ok (stake b) := by
  obtain ⟨header, rfl, kind, _⟩ := StakeAddress.ofBytes_eq_ok_iff.mp h
  have last := b.credential.isScript.toNat_le
  have reward : header.toNat / 16 = 14 ∨ header.toNat / 16 = 15 := by omega
  rw [ofBytes, if_neg (by omega), if_neg (by omega), if_pos reward, h]
  rfl

def pointer? : Bytes → Option Bytes
  | [] => Option.none
  | header :: body => if header.toNat / 16 / 2 = 2 then some (body.drop 28) else Option.none

def Ended (bs : Bytes) : Prop := ∀ p ∈ pointer? bs, Pointer.leftover p = []

/-- The network tag is one of the two that exist; addresses of the first era have none. -/
def NamesNetwork : Bytes → Prop
  | [] => True
  | header :: _ => header.toNat / 16 = 8 ∨ header.toNat % 16 ≤ 1

def Unpadded (bs : Bytes) : Prop := ∀ p ∈ pointer? bs, Pointer.Unpadded p

/-- The one spelling among those of an address that writing produces. -/
def Plain (bs : Bytes) : Prop := NamesNetwork bs ∧ Unpadded bs

instance (bs : Bytes) : Decidable (Ended bs) := inferInstanceAs (Decidable (∀ _ ∈ _, _))

instance : (bs : Bytes) → Decidable (NamesNetwork bs)
  | [] => inferInstanceAs (Decidable True)
  | _ :: _ => inferInstanceAs (Decidable (_ ∨ _))

instance (bs : Bytes) : Decidable (Unpadded bs) := inferInstanceAs (Decidable (∀ _ ∈ _, _))

instance (bs : Bytes) : Decidable (Plain bs) := inferInstanceAs (Decidable (_ ∧ _))

theorem forall_mem_pointer?_iff {b : ShelleyAddress} {header : UInt8} {tail : Bytes}
    (kind : header.toNat / 16 = b.kind.toNat) (P : Bytes → Prop) :
    (∀ p ∈ pointer? (header :: (b.payment.hash.bytes ++ tail)), P p) ↔
      (b.delegation.layout = 2 → P tail) := by
  have layout : header.toNat / 16 / 2 = b.delegation.layout := by
    have := b.payment.isScript.toNat_le
    rw [kind, ShelleyAddress.toNat_kind]
    omega
  rw [pointer?, layout, List.drop_left' b.payment.hash.length_bytes]
  split <;> simp_all

theorem toBytes_eq_iff {a : Address} (h : ofBytes bs = .ok a) (ended : Ended bs) :
    a.toBytes = bs ↔ Plain bs := by
  obtain ⟨b, rfl, read⟩ | ⟨rfl, header, body, rfl, kind⟩ | ⟨b, rfl, read⟩ := ofBytes_cases h
  · obtain ⟨header, tail, rfl, kind, network, spelled⟩ := ShelleyAddress.ofBytes_eq_ok_iff.mp read
    have small := b.toNat_kind_le
    have tagged : header.toNat / 16 ≠ 8 := by omega
    rw [Ended, forall_mem_pointer?_iff kind] at ended
    rw [Plain, Unpadded, forall_mem_pointer?_iff kind, toBytes,
      ShelleyAddress.toBytes_eq_iff kind network,
      ShelleyAddress.delegationBytes_eq_iff spelled ended]
    simp [NamesNetwork, tagged]
  · have noPointer : pointer? (header :: body) = Option.none := by simp [pointer?, kind]
    refine iff_of_true rfl ⟨?_, ?_⟩
    · simp [NamesNetwork, kind]
    · simp [Unpadded, noPointer]
  · obtain ⟨header, rfl, kind, network⟩ := StakeAddress.ofBytes_eq_ok_iff.mp read
    have tagged : header.toNat / 16 ≠ 8 := by omega
    have noPointer : header.toNat / 16 / 2 ≠ 2 := by omega
    rw [toBytes, StakeAddress.toBytes_eq_iff kind network]
    simp [Plain, NamesNetwork, tagged, Unpadded, pointer?, noPointer]

/-- What is read is written back as it was if and only if it is plain: tags of no network and padded
numbers are spellings of their own. A third one, bytes behind a pointer that the reader drops, is
left out. So plain byte strings of different spelling are different addresses, and an output at the
address that was read holds the bytes that it was read from. -/
theorem read_plain_iff_written_back {a : Address} (h : ofBytes bs = .ok a) (ended : Ended bs) :
    (a.toBytes = bs ↔ Plain bs) ∧
    (Plain bs → ∀ other, ofBytes other = .ok a → Ended other → Plain other → other = bs) ∧
    (Plain bs → ∀ o : TxOut, o.address = a →
      ∃ others, o.toItem = .map (others.length + 1) ((.nat 0, .bytes bs) :: others)) := by
  have written := toBytes_eq_iff h ended
  refine ⟨written, ?_, ?_⟩
  · intro plain other read otherEnded otherPlain
    have same := (toBytes_eq_iff read otherEnded).mpr otherPlain
    rw [← same, written.mpr plain]
  · rintro plain o rfl
    have item : o.address.toItem = .bytes bs := congrArg Cbor.Item.bytes (written.mpr plain)
    rw [TxOut.toItem, item]
    refine ⟨_, congrArg₂ Cbor.Item.map ?_ rfl⟩
    cases o.datum <;> cases o.scriptRef <;> rfl

namespace Sample

def spelled (header : UInt8) (tail : Bytes) : Bytes := header :: (List.replicate 28 7 ++ tail)

end Sample

theorem read_plain_iff_written_back_pointer : ∃ a,
    ofBytes (Sample.spelled 0x40 [0x81, 0x00, 0x02, 0x03]) = .ok a ∧
    a.toBytes = Sample.spelled 0x40 [0x81, 0x00, 0x02, 0x03] :=
  ⟨_, rfl, (read_plain_iff_written_back rfl (by decide)).1.mpr (by decide)⟩

theorem exists_read_not_written_back :
    (∃ a, ofBytes (Sample.spelled 0x62 []) = .ok a ∧ a.toBytes ≠ Sample.spelled 0x62 [] ∧
      ofBytes (Sample.spelled 0x61 []) = .ok a) ∧
    ∃ a, ofBytes (Sample.spelled 0x40 [0x80, 0x01, 0x02, 0x03]) = .ok a ∧
      a.toBytes ≠ Sample.spelled 0x40 [0x80, 0x01, 0x02, 0x03] ∧
      ofBytes (Sample.spelled 0x40 [0x01, 0x02, 0x03]) = .ok a := by
  refine ⟨⟨_, rfl, ?_, rfl⟩, ⟨_, rfl, ?_, rfl⟩⟩
  · rw [Ne, toBytes_eq_iff rfl (by decide)]
    decide
  · rw [Ne, toBytes_eq_iff rfl (by decide)]
    decide

end Address

end ConwayTx
