import ConwayTx.Blake2b
import ConwayTx.OrdMap
import ConwayTx.Text.Hex

namespace ConwayTx

structure Hash (width : Nat) where
  bytes : Bytes
  length_bytes : bytes.length = width
  deriving DecidableEq

namespace Hash

variable {width : Nat}

theorem ext {a b : Hash width} (h : a.bytes = b.bytes) : a = b := by
  cases a
  cases b
  simp_all

def ofBytes? (bs : Bytes) : Option (Hash width) :=
  if h : bs.length = width then some ⟨bs, h⟩ else none

@[simp] theorem ofBytes?_bytes (h : Hash width) : ofBytes? h.bytes = some h :=
  dif_pos h.length_bytes

def zero : Hash width := ⟨List.replicate width 0, List.length_replicate⟩

instance : Inhabited (Hash width) := ⟨zero⟩

def toHex (h : Hash width) : String := Hex.encode h.bytes

def ofHex (text : String) : Except HexError (Hash width) :=
  match h : Hex.decodeExactly width text with
  | .error e => .error e
  | .ok bs => .ok ⟨bs, Hex.length_of_decodeExactly h⟩

end Hash

theorem map_toNat_inj {xs ys : Bytes} (h : xs.map (·.toNat) = ys.map (·.toNat)) : xs = ys :=
  (List.map_inj_right (fun _ _ => UInt8.toNat_inj.mp)).mp h

instance : Ranked Bytes where
  rank bs := bs.map (·.toNat)
  rank_inj := map_toNat_inj

instance {width : Nat} : Ranked (Hash width) where
  rank h := Ranked.rank h.bytes
  rank_inj h := Hash.ext (Ranked.rank_inj h)

abbrev TxHash := Hash 32
abbrev DatumHash := Hash 32
abbrev KeyHash := Hash 28
abbrev ScriptHash := Hash 28
abbrev PoolId := Hash 28
abbrev PolicyId := Hash 28

def blake2b224 (data : Bytes) : Hash 28 :=
  ⟨Blake2b.digest 28 data, Blake2b.length_digest (by decide) data⟩

def blake2b256 (data : Bytes) : Hash 32 :=
  ⟨Blake2b.digest 32 data, Blake2b.length_digest (by decide) data⟩

def blake2b224Tagged (tag : UInt8) (data : Bytes) : Hash 28 := blake2b224 (tag :: data)

end ConwayTx
