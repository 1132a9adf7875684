import ConwayTx.Proofs.Cbor.ReadBack
import ConwayTx.Proofs.Cbor.Writing
import ConwayTx.Script
/-!
Writing scripts and reading them back. The lengths that arrays announce are not compared, so that
each kind of script has to be read up to its end by what it is made of; where scripts nest, the
bytes that are left always allow for the depth.
-/

namespace ConwayTx

open Cbor (Item Reader)
open Cbor.Reader

namespace NativeScript

inductive Fits : NativeScript → Prop
  | pubkey (h : KeyHash) : Fits (.pubkey h)
  | all {scripts : List NativeScript} (fits : scripts.length < UInt64.size)
      (each : ∀ s ∈ scripts, Fits s) : Fits (.all scripts)
  | any {scripts : List NativeScript} (fits : scripts.length < UInt64.size)
      (each : ∀ s ∈ scripts, Fits s) : Fits (.any scripts)
  | atLeast (n : UInt32) {scripts : List NativeScript} (fits : scripts.length < UInt64.size)
      (each : ∀ s ∈ scripts, Fits s) : Fits (.atLeast n scripts)
  | invalidBefore (slot : UInt64) : Fits (.invalidBefore slot)
  | invalidHereafter (slot : UInt64) : Fits (.invalidHereafter slot)

theorem itemsOf_eq_map (scripts : List NativeScript) : itemsOf scripts = scripts.map toItem := by
  induction scripts with
  | nil => rfl
  | cons s rest ih => rw [itemsOf, List.map_cons, ih]

def readVariant (scripts : Reader (List NativeScript)) (variant : UInt32) : Reader NativeScript :=
  match variant with
  | 0 => (Reader.hash 28).map pubkey
  | 1 => scripts.map all
  | 2 => scripts.map any
  | 3 => Reader.uint32.bind (fun n => scripts.map (atLeast n))
  | 4 => Reader.nat.map invalidBefore
  | 5 => Reader.nat.map invalidHereafter
  | variant => Reader.fail (.unknownNativeScript variant)

theorem readWithin_succ (depth : Nat) : readWithin (depth + 1) =
    Reader.arrayHeader.bind (fun _ =>
      Reader.uint32.bind (readVariant (Reader.arrayOf (readWithin depth)))) := rfl

theorem takes_readWithin_of_variant (variant : UInt32) {depth : Nat} {s : NativeScript}
    {count : Nat} {parts : List Item}
    (item : s.toItem = .array count (.nat variant.toUInt64 :: parts)) (few : count ≤ 3)
    (enough : s.encode.length ≤ depth)
    (next : ∀ below, (Item.encodeAll parts).length ≤ below →
      (readVariant (Reader.arrayOf (readWithin below)) variant).Takes (Item.encodeAll parts)
        (· = s)) :
    (readWithin depth).Takes s.encode (· = s) := by
  have written : s.encode = Cbor.head 4 count ++
      (Cbor.head 0 variant.toUInt64.toNat ++ Item.encodeAll parts) := by
    rw [encode, item, Item.encode, Item.encodeAll, Item.encode]
  have fits : count < UInt64.size := Nat.lt_of_le_of_lt few (by decide)
  have opening := Item.length_head_pos 4 count
  rw [written] at enough ⊢
  simp only [List.length_append] at enough
  cases depth with
  | zero => omega
  | succ below =>
    rw [readWithin_succ]
    exact (takes_arrayHeader_head fits).then
      ((takes_uint32_head variant).then (next below (by omega)))

theorem takes_scripts {depth : Nat} {scripts : List NativeScript}
    (fits : scripts.length < UInt64.size)
    (each : ∀ s ∈ scripts, ∀ depth, s.encode.length ≤ depth →
      (readWithin depth).Takes s.encode (· = s))
    (enough : (Item.array scripts.length (itemsOf scripts)).encode.length ≤ depth) :
    (Reader.arrayOf (readWithin depth)).Takes
      (Item.array scripts.length (itemsOf scripts)).encode (· = scripts) := by
  rw [itemsOf_eq_map] at enough ⊢
  refine takes_arrayOf_items toItem fits fun s mem => each s mem depth ?_
  exact (Item.length_encode_le (List.mem_map_of_mem mem)).trans enough

theorem Fits.takes_readWithin {s : NativeScript} (fits : s.Fits) :
    ∀ depth, s.encode.length ≤ depth → (readWithin depth).Takes s.encode (· = s) := by
  induction fits with
  | pubkey h =>
    intro depth enough
    refine takes_readWithin_of_variant 0 rfl (by decide) enough fun below _ => ?_
    rw [Item.encodeAll_singleton]
    exact (takes_hash (by decide) h).map_eq NativeScript.pubkey
  | all fits _ ih =>
    intro depth enough
    refine takes_readWithin_of_variant 1 rfl (by decide) enough fun below shorter => ?_
    rw [Item.encodeAll_singleton] at shorter ⊢
    exact (takes_scripts fits ih shorter).map_eq NativeScript.all
  | any fits _ ih =>
    intro depth enough
    refine takes_readWithin_of_variant 2 rfl (by decide) enough fun below shorter => ?_
    rw [Item.encodeAll_singleton] at shorter ⊢
    exact (takes_scripts fits ih shorter).map_eq NativeScript.any
  | atLeast n fits _ ih =>
    intro depth enough
    refine takes_readWithin_of_variant 3 rfl (by decide) enough fun below shorter => ?_
    rw [Item.encodeAll, Item.encodeAll_singleton, Item.encode] at shorter ⊢
    rw [List.length_append] at shorter
    exact (takes_uint32_head n).then
      ((takes_scripts fits ih (by omega)).map_eq (NativeScript.atLeast n))
  | invalidBefore slot =>
    intro depth enough
    refine takes_readWithin_of_variant 4 rfl (by decide) enough fun below _ => ?_
    rw [Item.encodeAll_singleton]
    exact (takes_nat_head slot).map_eq NativeScript.invalidBefore
  | invalidHereafter slot =>
    intro depth enough
    refine takes_readWithin_of_variant 5 rfl (by decide) enough fun below _ => ?_
    rw [Item.encodeAll_singleton]
    exact (takes_nat_head slot).map_eq NativeScript.invalidHereafter

theorem Fits.takes_read {s : NativeScript} (fits : s.Fits) : read.Takes s.encode (· = s) := by
  intro rest
  have enough : s.encode.length ≤ (s.encode ++ rest).length + 1 := by
    rw [List.length_append]
    omega
  exact fits.takes_readWithin _ enough rest

def preimage (s : NativeScript) : Bytes := 0 :: s.encode

theorem Fits.eq_of_encode_eq {s s' : NativeScript} (fits : s.Fits) (fits' : s'.Fits)
    (same : s.encode = s'.encode) : s = s' :=
  fits.takes_read.inj fits'.takes_read same

end NativeScript

namespace Script

def Fits : Script → Prop
  | native s => s.Fits
  | plutus _ code => code.length < UInt64.size

def readTagged (tag : UInt8) : Reader Script :=
  match tag with
  | 0 => NativeScript.read.map native
  | 1 => Reader.bytes.map (plutus .v1)
  | 2 => Reader.bytes.map (plutus .v2)
  | 3 => Reader.bytes.map (plutus .v3)
  | tag => Reader.fail (.unknownLanguage tag)

theorem read_eq : read = Reader.arrayHeader.bind (fun _ => Reader.uint8.bind readTagged) := rfl

theorem takes_read_of_tagged (tag : UInt8) {s : Script} {part : Item}
    (item : s.toItem = .array 2 [.nat tag.toUInt64, part])
    (next : (readTagged tag).Takes part.encode (· = s)) : read.Takes s.encode (· = s) := by
  have written : s.encode = Cbor.head 4 2 ++ (Cbor.head 0 tag.toUInt64.toNat ++ part.encode) := by
    rw [encode, item, Item.encode, Item.encodeAll, Item.encodeAll_singleton, Item.encode]
  rw [written, read_eq]
  exact (takes_arrayHeader_head (by decide)).then ((takes_uint8_head tag).then next)

theorem readTagged_language (l : Language) :
    readTagged l.tag = Reader.bytes.map (plutus l) := by
  cases l <;> rfl

theorem Fits.takes_read {s : Script} (fits : s.Fits) : read.Takes s.encode (· = s) := by
  cases s with
  | native s =>
    exact takes_read_of_tagged 0 rfl ((NativeScript.Fits.takes_read fits).map_eq native)
  | plutus l code =>
    refine takes_read_of_tagged l.tag (by cases l <;> rfl) ?_
    rw [readTagged_language, Item.encode]
    exact (takes_encodeBytes fits).map_eq (plutus l)

def preimage : Script → Bytes
  | native s => s.preimage
  | plutus l code => l.tag :: code

theorem hash_eq (s : Script) : s.hash = blake2b224 s.preimage := by
  cases s <;> rfl

theorem native_of_preimage_eq {s : NativeScript} {s' : Script} (fits : s.Fits) (fits' : s'.Fits)
    (same : s.preimage = s'.preimage) : native s = s' := by
  cases s' with
  | native s' =>
    obtain ⟨-, same⟩ := List.cons.inj same
    rw [fits.eq_of_encode_eq fits' same]
  | plutus l code =>
    obtain ⟨tag, -⟩ := List.cons.inj same
    cases l <;> cases tag

/-- Scripts are read back as they were written, up to where they end, and what is hashed of a
native script is what no other script has hashed. -/
theorem scripts_read_back :
    (∀ s : Script, s.hash = blake2b224 s.preimage ∧ (s.Fits →
      (∀ rest, read (s.encode ++ rest) = .ok (s, rest)) ∧ decode s.encode = .ok s)) ∧
    (∀ s : NativeScript, s.Fits →
      (∀ rest, NativeScript.read (s.encode ++ rest) = .ok (s, rest)) ∧
      s.hash = blake2b224 s.preimage ∧
      ∀ s' : Script, s'.Fits → s.preimage = s'.preimage → native s = s') := by
  constructor
  · intro s
    exact ⟨s.hash_eq, fun fits => ⟨fits.takes_read.read_append, fits.takes_read.run_eq⟩⟩
  · intro s fits
    exact ⟨fits.takes_read.read_append, rfl, fun _ => native_of_preimage_eq fits⟩

def Sample.conditions : NativeScript :=
  .atLeast 0xffffffff [.all [], .any [.pubkey Hash.zero, .invalidBefore 0xffffffffffffffff],
    .invalidHereafter 24]

theorem Sample.conditions_fits : Sample.conditions.Fits := by
  refine .atLeast _ (by decide) ?_
  simp only [List.forall_mem_cons]
  refine ⟨.all (by decide) (by simp), .any (by decide) ?_, .invalidHereafter _, by simp⟩
  simp only [List.forall_mem_cons]
  exact ⟨.pubkey _, .invalidBefore _, by simp⟩

theorem sample_scripts_read_back : Sample.conditions.Fits ∧
    NativeScript.read (Sample.conditions.encode ++ [0x83]) = .ok (Sample.conditions, [0x83]) ∧
    read ((native Sample.conditions).encode ++ [0]) = .ok (native Sample.conditions, [0]) ∧
    decode (plutus .v3 [0xff]).encode = .ok (plutus .v3 [0xff]) ∧
    Sample.conditions.preimage ≠ (plutus .v3 [0xff]).preimage := by
  obtain ⟨scripts, natives⟩ := scripts_read_back
  have code : (plutus .v3 [0xff]).Fits := (by decide : 1 < UInt64.size)
  obtain ⟨read, _, alone⟩ := natives _ Sample.conditions_fits
  refine ⟨Sample.conditions_fits, read _, ((scripts (native _)).2 Sample.conditions_fits).1 _,
    ((scripts _).2 code).2, fun same => ?_⟩
  cases alone _ code same

end Script

end ConwayTx
