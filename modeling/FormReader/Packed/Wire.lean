import FormReader.Bytes

/-!
# The packed format

Numbers, texts and arrays as MessagePack bytes. A value starts with a lead byte, which gives its
kind and for small values its content; otherwise a big-endian number follows.

Integers are written in the smallest signed form that holds them, never in an unsigned one. All
forms are read.
-/

namespace FormReader.Packed

/-- The kind of a value, as its lead byte shows it. -/
inductive Kind where
  | int
  | uint
  | str
  | array
  | nil
  | bool
  | float32
  | float64
  | bin
  | map
  | ext
  /-- No value starts with this byte. -/
  | invalid
  deriving DecidableEq, Repr

/-- The name of a kind. -/
def Kind.name : Kind → Bytes
  | int => "int"
  | uint => "uint"
  | str => "str"
  | array => "array"
  | nil => "nil"
  | bool => "bool"
  | float32 => "float32"
  | float64 => "float64"
  | bin => "bin"
  | map => "map"
  | ext => "ext"
  | invalid => "<invalid>"

/-- The kind of value that starts with a byte. -/
def Kind.ofLead (lead : UInt8) : Kind :=
  if lead < 0x80 then int
  else if lead < 0x90 then map
  else if lead < 0xa0 then array
  else if lead < 0xc0 then str
  else if lead = 0xc0 then nil
  else if lead = 0xc1 then invalid
  else if lead < 0xc4 then bool
  else if lead < 0xc7 then bin
  else if lead < 0xca then ext
  else if lead = 0xca then float32
  else if lead = 0xcb then float64
  else if lead < 0xd0 then uint
  else if lead < 0xd4 then int
  else if lead < 0xd9 then ext
  else if lead < 0xdc then str
  else if lead < 0xde then array
  else if lead < 0xe0 then map
  else int

/-- The width of the number behind a lead byte: from `first` on, lead bytes stand for one, two, four
and eight bytes. -/
def widthFrom (first lead : UInt8) : Nat := Nat.pow 2 (lead - first).toNat

/-- The last `width` bytes of a number, the most significant first. -/
def bigEndian (width n : Nat) : Bytes :=
  (List.range width).reverse.map fun i => (n / Nat.pow 256 i).toUInt8

/-- The number that bytes stand for, the most significant first. -/
def ofBigEndian (b : Bytes) : Nat := b.foldl (fun n c => 256 * n + c.toNat) 0

/-- The integer that `width` bytes of value `n` stand for in two's complement. -/
def signed (width n : Nat) : Int :=
  if n < Nat.pow 2 (8 * width - 1) then n else (n : Int) - Nat.pow 2 (8 * width)

/-- The last `width` bytes of an integer in two's complement. -/
def signedBytes (width : Nat) (i : Int) : Bytes :=
  bigEndian width (i % Nat.pow 2 (8 * width)).toNat

/-- An integer in the smallest signed form. -/
def intBytes (v : Int64) : Bytes :=
  let i := v.toInt
  if -32 ≤ i ∧ i < 128 then signedBytes 1 i
  else if -128 ≤ i ∧ i < 128 then 0xd0 :: signedBytes 1 i
  else if -32768 ≤ i ∧ i < 32768 then 0xd1 :: signedBytes 2 i
  else if -2147483648 ≤ i ∧ i < 2147483648 then 0xd2 :: signedBytes 4 i
  else 0xd3 :: signedBytes 8 i

/-- The head of a text of `n` bytes. -/
def textHead (n : Nat) : Bytes :=
  if n < 32 then [(0xa0 + n).toUInt8]
  else if n < 256 then 0xd9 :: bigEndian 1 n
  else if n < 65536 then 0xda :: bigEndian 2 n
  else 0xdb :: bigEndian 4 n

/-- The head of an array of `n` elements. Their number is handed over in 32 bits, so of 2^32
elements it tells none. -/
def arrayHead (n : Nat) : Bytes :=
  let told := n % 4294967296
  if told < 16 then [(0x90 + told).toUInt8]
  else if told < 65536 then 0xdc :: bigEndian 2 told
  else 0xdd :: bigEndian 4 told

/-- The first `n` bytes and the rest, if there are that many. -/
def take? (n : Nat) (b : Bytes) : Option (Bytes × Bytes) :=
  let taken := b.take n
  if taken.length < n then none else some (taken, b.drop n)

theorem length_of_take? {n : Nat} {b taken rest : Bytes} (h : take? n b = some (taken, rest)) :
    rest.length ≤ b.length := by
  unfold take? at h
  simp only at h
  split at h
  · cases h
  · cases h
    simp

/-- A number of `width` bytes, and the bytes behind it. -/
def number? (width : Nat) (b : Bytes) : Option (Nat × Bytes) :=
  (take? width b).map fun (taken, rest) => (ofBigEndian taken, rest)

theorem length_of_number? {width n : Nat} {b rest : Bytes} (h : number? width b = some (n, rest)) :
    rest.length ≤ b.length := by
  obtain ⟨⟨taken, t⟩, ht, hn⟩ := Option.map_eq_some_iff.1 h
  simp only [Prod.mk.injEq] at hn
  rw [← hn.2]
  exact length_of_take? ht

/-- Bytes whose number is given by `width` bytes before them, and the bytes behind them. -/
def sized? (width : Nat) (b : Bytes) : Option (Bytes × Bytes) :=
  (number? width b).bind fun (n, rest) => take? n rest

end FormReader.Packed
