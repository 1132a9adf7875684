import ConwayTx.Bytes

namespace ConwayTx.Blake2b

abbrev State := Vector UInt64 8
abbrev Block := Vector UInt64 16

def initial : State :=
  #v[0x6a09e667f3bcc908, 0xbb67ae8584caa73b, 0x3c6ef372fe94f82b, 0xa54ff53a5f1d36f1,
     0x510e527fade682d1, 0x9b05688c2b3e6c1f, 0x1f83d9abfb41bd6b, 0x5be0cd19137e2179]

def schedule : List (Vector (Fin 16) 16) :=
  [#v[0, 1, 2, 3, 4, 5, 6, 7, 8, 9, 10, 11, 12, 13, 14, 15],
   #v[14, 10, 4, 8, 9, 15, 13, 6, 1, 12, 0, 2, 11, 7, 5, 3],
   #v[11, 8, 12, 0, 5, 2, 15, 13, 10, 14, 3, 6, 7, 1, 9, 4],
   #v[7, 9, 3, 1, 13, 12, 11, 14, 2, 6, 5, 10, 4, 0, 15, 8],
   #v[9, 0, 5, 7, 2, 4, 10, 15, 14, 1, 11, 12, 6, 8, 3, 13],
   #v[2, 12, 6, 10, 0, 11, 8, 3, 4, 13, 7, 5, 15, 14, 1, 9],
   #v[12, 5, 1, 15, 14, 13, 4, 10, 0, 7, 6, 3, 9, 2, 8, 11],
   #v[13, 11, 7, 14, 12, 1, 3, 9, 5, 0, 15, 4, 8, 6, 2, 10],
   #v[6, 15, 14, 9, 11, 3, 0, 8, 12, 2, 13, 7, 1, 4, 10, 5],
   #v[10, 2, 8, 4, 7, 6, 1, 5, 15, 11, 9, 14, 3, 12, 13, 0],
   #v[0, 1, 2, 3, 4, 5, 6, 7, 8, 9, 10, 11, 12, 13, 14, 15],
   #v[14, 10, 4, 8, 9, 15, 13, 6, 1, 12, 0, 2, 11, 7, 5, 3]]

def rotateRight (w : UInt64) (n : UInt64) : UInt64 := (w >>> n) ||| (w <<< (64 - n))

def mix (v : Block) (a b c d : Fin 16) (x y : UInt64) : Block :=
  let va := v[a] + v[b] + x
  let vd := rotateRight (v[d] ^^^ va) 32
  let vc := v[c] + vd
  let vb := rotateRight (v[b] ^^^ vc) 24
  let va := va + vb + y
  let vd := rotateRight (vd ^^^ va) 16
  let vc := vc + vd
  let vb := rotateRight (vb ^^^ vc) 63
  (((v.set a va).set b vb).set c vc).set d vd

def round (m : Block) (v : Block) (s : Vector (Fin 16) 16) : Block :=
  let v := mix v 0 4 8 12 m[s[0]] m[s[1]]
  let v := mix v 1 5 9 13 m[s[2]] m[s[3]]
  let v := mix v 2 6 10 14 m[s[4]] m[s[5]]
  let v := mix v 3 7 11 15 m[s[6]] m[s[7]]
  let v := mix v 0 5 10 15 m[s[8]] m[s[9]]
  let v := mix v 1 6 11 12 m[s[10]] m[s[11]]
  let v := mix v 2 7 8 13 m[s[12]] m[s[13]]
  mix v 3 4 9 14 m[s[14]] m[s[15]]

def word (block : Bytes) (i : Nat) : UInt64 :=
  ((block.drop (8 * i)).take 8).foldr (fun b w => (w <<< 8) ||| b.toUInt64) 0

def compress (h : State) (block : Bytes) (counter : Nat) (final : Bool) : State :=
  let m : Block := Vector.ofFn (fun i => word block i.val)
  let v : Block := (h ++ initial).cast rfl
  let v := v.set 12 (v[12] ^^^ UInt64.ofNat counter)
  let v := v.set 13 (v[13] ^^^ UInt64.ofNat (counter / UInt64.size))
  let v := if final then v.set 14 (v[14] ^^^ 0xffffffffffffffff) else v
  let v := schedule.foldl (round m) v
  Vector.ofFn (fun i => h[i] ^^^ v[i.castAdd 8] ^^^ v[i.natAdd 8])

def absorb (h : State) (counter : Nat) : List Bytes → State
  | [] => compress h [] counter true
  | [block] => compress h block (counter + block.length) true
  | block :: rest => absorb (compress h block (counter + 128) false) (counter + 128) rest

def leBytes (w : UInt64) : Bytes :=
  (List.range 8).map (fun i => (w >>> (8 * UInt64.ofNat i)).toUInt8)

/-- The digest of `size` bytes, for `size` up to 64. -/
def digest (size : Nat) (data : Bytes) : Bytes :=
  let start := initial.set 0 (initial[0] ^^^ 0x01010000 ^^^ UInt64.ofNat size)
  let final := absorb start 0 (data.chunks 127)
  (final.toList.flatMap leBytes).take size

theorem length_digest {size : Nat} (h : size ≤ 64) (data : Bytes) :
    (digest size data).length = size := by
  simp only [digest, List.length_take, List.length_flatMap, leBytes, List.length_map,
    List.length_range, List.map_const', Vector.length_toList, List.sum_replicate_nat]
  omega

end ConwayTx.Blake2b
