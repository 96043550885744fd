import Envelope.Bytes

/-!
# BLAKE2b

The unkeyed hash with digests of 1 to 64 bytes, and its extension to digests
of any length as Argon2 uses it.
-/

namespace Envelope.Kdf.Blake2b

/-- The chaining value at the start, before the parameters are mixed in. -/
def initial : Vector UInt64 8 :=
  #v[0x6a09e667f3bcc908, 0xbb67ae8584caa73b, 0x3c6ef372fe94f82b, 0xa54ff53a5f1d36f1,
     0x510e527fade682d1, 0x9b05688c2b3e6c1f, 0x1f83d9abfb41bd6b, 0x5be0cd19137e2179]

/-- The order in which each round takes the message words. -/
def schedule : List (Vector (Fin 16) 16) :=
  [#v[0, 1, 2, 3, 4, 5, 6, 7, 8, 9, 10, 11, 12, 13, 14, 15],
   #v[14, 10, 4, 8, 9, 15, 13, 6, 1, 12, 0, 2, 11, 7, 5, 3],
   #v[11, 8, 12, 0, 5, 2, 15, 13, 10, 14, 3, 6, 7, 1, 9, 4],
   #v[7, 9, 3, 1, 13, 12, 11, 14, 2, 6, 5, 10, 4, 0, 15, 8],
   #v[9, 0, 5, 7, 2, 4, 10, 15, 14, 1, 11, 12, 6, 8, 3, 13],
   #v[2, 12, 6, 10, 0, 11, 8, 3, 4, 13, 7, 5, 15, 14, 1, 9],
   #v[12, 5, 1, 15, 14, 13, 4, 10, 0, 7, 6, 3, 9, 2, 8, 11],
   #v[13, 11, 7, 14, 12, 1, 3, 9, 5, 0, 15, 4, 8, 6, 2, 10],
   #v[6, 15, 14, 9, 11, 3, 0, 8, 12, 2, 13, 7, 1, 4, 10, 5],
   #v[10, 2, 8, 4, 7, 6, 1, 5, 15, 11, 9, 14, 3, 12, 13, 0],
   #v[0, 1, 2, 3, 4, 5, 6, 7, 8, 9, 10, 11, 12, 13, 14, 15],
   #v[14, 10, 4, 8, 9, 15, 13, 6, 1, 12, 0, 2, 11, 7, 5, 3]]

def turn (w : UInt64) (n : UInt64) : UInt64 :=
  (w >>> n) ||| (w <<< (64 - n))

def mix (v : Vector UInt64 16) (a b c d : Fin 16) (x y : UInt64) : Vector UInt64 16 :=
  let va := v[a] + v[b] + x
  let vd := turn (v[d] ^^^ va) 32
  let vc := v[c] + vd
  let vb := turn (v[b] ^^^ vc) 24
  let va := va + vb + y
  let vd := turn (vd ^^^ va) 16
  let vc := vc + vd
  let vb := turn (vb ^^^ vc) 63
  (((v.set a va).set b vb).set c vc).set d vd

def round (m v : Vector UInt64 16) (order : Vector (Fin 16) 16) : Vector UInt64 16 :=
  let v := mix v 0 4 8 12 m[order[0]] m[order[1]]
  let v := mix v 1 5 9 13 m[order[2]] m[order[3]]
  let v := mix v 2 6 10 14 m[order[4]] m[order[5]]
  let v := mix v 3 7 11 15 m[order[6]] m[order[7]]
  let v := mix v 0 5 10 15 m[order[8]] m[order[9]]
  let v := mix v 1 6 11 12 m[order[10]] m[order[11]]
  let v := mix v 2 7 8 13 m[order[12]] m[order[13]]
  mix v 3 4 9 14 m[order[14]] m[order[15]]

/-- Takes one block into the chaining value. `total` counts the message bytes
up to the end of the block; a short block is zero filled. -/
def compress (h : Vector UInt64 8) (block : Bytes) (total : Nat) (last : Bool) :
    Vector UInt64 8 :=
  let m := Vector.ofFn fun i : Fin 16 => block.word64 (8 * i)
  let v := h ++ initial
  let v := v.set 12 (v[12] ^^^ UInt64.ofNat total)
  let v := v.set 13 (v[13] ^^^ UInt64.ofNat (total / UInt64.size))
  let v := if last then v.set 14 (v[14] ^^^ 0xffffffffffffffff) else v
  let v := schedule.foldl (round m) v
  Vector.ofFn fun i : Fin 8 => h[i] ^^^ v[i] ^^^ v[i.val + 8]

/-- Takes all blocks, the last one marked as such; `before` counts the bytes
already taken. -/
def absorb (h : Vector UInt64 8) (before : Nat) : List Bytes → Vector UInt64 8
  | [] => h
  | [block] => compress h block (before + block.length) true
  | block :: rest => absorb (compress h block (before + 128) false) (before + 128) rest

/-- The digest of `size` bytes, for a size of 1 to 64. -/
def hash (size : Nat) (message : Bytes) : Bytes :=
  let h := initial.set 0 (initial[0] ^^^ 0x01010000 ^^^ UInt64.ofNat size)
  let blocks := if message.isEmpty then [[]] else Bytes.chunks 128 message
  ((absorb h 0 blocks).toList.flatMap Bytes.ofUInt64).take size

theorem length_hash {size : Nat} (message : Bytes) (h : size ≤ 64) :
    (hash size message).length = size := by
  have words (v : List UInt64) : (v.flatMap Bytes.ofUInt64).length = 8 * v.length := by
    induction v with
    | nil => rfl
    | cons w v ih =>
      simp only [List.flatMap_cons, List.length_append, ih, Bytes.ofUInt64, Bytes.length_ofNat,
        List.length_cons]
      omega
  simp only [hash, List.length_take, words, Vector.length_toList]
  omega

/-- Half of `digest`, then half of its digest, and so on `more` times, and at
last a digest of `last` bytes in full. -/
def extend (last : Nat) : (more : Nat) → (digest : Bytes) → Bytes
  | 0, digest => digest.take 32 ++ hash last digest
  | more + 1, digest => digest.take 32 ++ extend last more (hash 64 digest)

/-- The digest of any size. -/
def longHash (size : Nat) (message : Bytes) : Bytes :=
  let message := Bytes.ofNat 4 size ++ message
  if size ≤ 64 then hash size message
  else
    let halves := (size + 31) / 32 - 2
    extend (size - 32 * halves) (halves - 1) (hash 64 message)

theorem length_longHash {size : Nat} (message : Bytes) (h : size ≤ 64) :
    (longHash size message).length = size := by
  simp only [longHash, if_pos h]
  exact length_hash _ h

end Envelope.Kdf.Blake2b
