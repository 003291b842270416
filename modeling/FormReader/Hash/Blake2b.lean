import FormReader.Bytes

/-!
# BLAKE2b with a digest of eight bytes

The unkeyed hash BLAKE2b, with the digest length set to eight bytes and the digest read as one
little-endian word.

## Implementation notes

The message is cut into blocks of 128 bytes, of which the last one, which may be full, short or
empty, is filled up with zeros. The eight bytes of the digest are the first word of the chaining
value, so no digest is built.
-/

namespace FormReader.Hash

/-- Sixteen words: a message block, or the working state of the compression. -/
abbrev Words := Vector UInt64 16

/-- The chaining value. -/
abbrev Chain := Vector UInt64 8

/-- The initial words. -/
def initial : Chain :=
  #v[0x6a09e667f3bcc908, 0xbb67ae8584caa73b, 0x3c6ef372fe94f82b, 0xa54ff53a5f1d36f1,
    0x510e527fade682d1, 0x9b05688c2b3e6c1f, 0x1f83d9abfb41bd6b, 0x5be0cd19137e2179]

/-- The order in which the words of a block enter each of the twelve rounds. -/
def schedule : List (Vector (Fin 16) 16) :=
  [#v[0, 1, 2, 3, 4, 5, 6, 7, 8, 9, 10, 11, 12, 13, 14, 15],
   #v[14, 10, 4, 8, 9, 15, 13, 6, 1, 12, 0, 2, 11, 7, 5, 3],
   #v[11, 8, 12, 0, 5, 2, 15, 13, 10, 14, 3, 6, 7, 1, 9, 4],
   #v[7, 9, 3, 1, 13, 12, 11, 14, 2, 6, 5, 10, 4, 0, 15, 8],
   #v[9, 0, 5, 7, 2, 4, 10, 15, 14, 1, 11, 12, 6, 8, 3, 13],
   #v[2, 12, 6, 10, 0, 11, 8, 3, 4, 13, 7, 5, 15, 14, 1, 9],
   #v[12, 5, 1, 15, 14, 13, 4, 10, 0, 7, 6, 3, 9, 2, 8, 11],
   #v[13, 11, 7, 14, 12, 1, 3, 9, 5, 0, 15, 4, 8, 6, 2, 10],
   #v[6, 15, 14, 9, 11, 3, 0, 8, 12, 2, 13, 7, 1, 4, 10, 5],
   #v[10, 2, 8, 4, 7, 6, 1, 5, 15, 11, 9, 14, 3, 12, 13, 0],
   #v[0, 1, 2, 3, 4, 5, 6, 7, 8, 9, 10, 11, 12, 13, 14, 15],
   #v[14, 10, 4, 8, 9, 15, 13, 6, 1, 12, 0, 2, 11, 7, 5, 3]]

/-- Rotation to the right, for amounts between 1 and 63. -/
def rotateRight (x : UInt64) (n : UInt64) : UInt64 := (x >>> n) ||| (x <<< (64 - n))

/-- Mixes two message words into four words of the state. -/
def mix (v : Words) (a b c d : Fin 16) (x y : UInt64) : Words :=
  let v := v.set a (v[a] + v[b] + x)
  let v := v.set d (rotateRight (v[d] ^^^ v[a]) 32)
  let v := v.set c (v[c] + v[d])
  let v := v.set b (rotateRight (v[b] ^^^ v[c]) 24)
  let v := v.set a (v[a] + v[b] + y)
  let v := v.set d (rotateRight (v[d] ^^^ v[a]) 16)
  let v := v.set c (v[c] + v[d])
  v.set b (rotateRight (v[b] ^^^ v[c]) 63)

/-- One round: the columns, then the diagonals. -/
def round (m : Words) (v : Words) (s : Vector (Fin 16) 16) : Words :=
  let v := mix v 0 4 8 12 m[s[0]] m[s[1]]
  let v := mix v 1 5 9 13 m[s[2]] m[s[3]]
  let v := mix v 2 6 10 14 m[s[4]] m[s[5]]
  let v := mix v 3 7 11 15 m[s[6]] m[s[7]]
  let v := mix v 0 5 10 15 m[s[8]] m[s[9]]
  let v := mix v 1 6 11 12 m[s[10]] m[s[11]]
  let v := mix v 2 7 8 13 m[s[12]] m[s[13]]
  mix v 3 4 9 14 m[s[14]] m[s[15]]

/-- Takes a block into the chaining value; `count` is the number of bytes up to its end. -/
def compress (h : Chain) (m : Words) (count : UInt64) (last : Bool) : Chain :=
  let v : Words := h ++ initial
  let v := v.set 12 (v[12] ^^^ count)
  let v := if last then v.set 14 (v[14] ^^^ 0xffffffffffffffff) else v
  let v := schedule.foldl (round m) v
  Vector.ofFn fun i : Fin 8 => h[i] ^^^ v[i.val] ^^^ v[i.val + 8]

/-- The word of at most eight bytes, the least significant first. -/
def littleEndian (bytes : Bytes) : UInt64 :=
  bytes.foldr (fun b w => w * 256 + b.toUInt64) 0

/-- A block of at most 128 bytes, filled up with zeros. -/
def block (bytes : Bytes) : Words :=
  Vector.ofFn fun i : Fin 16 => littleEndian ((bytes.drop (8 * i.val)).take 8)

/-- Takes in the rest of a message, `count` bytes of which were taken in before. -/
def absorb (h : Chain) (count : Nat) (data : Bytes) : Chain :=
  if (data.drop 128).isEmpty then compress h (block data) (count + data.length).toUInt64 true
  else absorb (compress h (block (data.take 128)) (count + 128).toUInt64 false) (count + 128)
    (data.drop 128)
termination_by data.length
decreasing_by
  have hne : data.drop 128 ≠ [] := by simp_all
  have hlt : 128 < data.length := by
    rcases Nat.lt_or_ge 128 data.length with h | h
    · exact h
    · exact absurd (List.drop_eq_nil_of_le h) hne
  simp only [List.length_drop]
  omega

/-- The hash of a message as one word. -/
def blake2b64 (data : Bytes) : UInt64 :=
  let start := initial.set 0 (initial[0] ^^^ 0x01010008)
  (absorb start 0 data)[0]

/-- A hash as sixteen hexadecimal digits. -/
def hashText (h : UInt64) : Bytes := Bytes.hexDigits 16 h.toNat

end FormReader.Hash
