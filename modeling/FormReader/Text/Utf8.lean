import FormReader.Bytes

/-!
# UTF-8 with stray bytes

Splits text into code points. A byte that starts no well-formed sequence (a continuation byte, an
overlong form, a surrogate, a value above U+10FFFF, a sequence cut short) stands alone as a stray
byte, so nothing of the text is lost.

Text is also taken apart from behind. An ASCII byte at the end is a rune by itself. Any other is the
end of the sequence that starts at the nearest byte before it which continues none, and it is a
stray byte if what stands there is no well-formed sequence that goes to the end. No more than three
bytes are passed over on the way back.

## Implementation notes

From behind the text is given in reverse, so the last byte comes first, and what is in front of the
last rune is what is left of the list.
-/

namespace FormReader.Text

/-- One unit of text: a code point in well-formed UTF-8, or a byte that belongs to none. -/
inductive Rune where
  | code (c : Nat)
  | stray (b : UInt8)
  deriving DecidableEq, Repr

/-- Whether a byte continues a sequence. -/
def isContinuation (b : UInt8) : Bool := 0x80 ≤ b && b ≤ 0xbf

/-- The six payload bits of a continuation byte. -/
def payload (b : UInt8) : Nat := b.toNat % 64

/-- Whether `b` may follow the lead byte `a` of a sequence of three bytes. -/
def followsThree (a b : UInt8) : Bool :=
  isContinuation b && (a != 0xe0 || 0xa0 ≤ b) && (a != 0xed || b ≤ 0x9f)

/-- Whether `b` may follow the lead byte `a` of a sequence of four bytes. -/
def followsFour (a b : UInt8) : Bool :=
  isContinuation b && (a != 0xf0 || 0x90 ≤ b) && (a != 0xf4 || b ≤ 0x8f)

/-- The code point of the sequence that `a` leads, and the text after it. -/
def sequence? (a : UInt8) (rest : Bytes) : Option (Nat × Bytes) :=
  if a < 0x80 then some (a.toNat, rest)
  else if 0xc2 ≤ a && a ≤ 0xdf then
    match rest with
    | b :: r =>
      if isContinuation b then some ((a.toNat - 0xc0) * 64 + payload b, r) else none
    | _ => none
  else if 0xe0 ≤ a && a ≤ 0xef then
    match rest with
    | b :: c :: r =>
      if followsThree a b && isContinuation c then
        some ((a.toNat - 0xe0) * 4096 + payload b * 64 + payload c, r)
      else none
    | _ => none
  else if 0xf0 ≤ a && a ≤ 0xf4 then
    match rest with
    | b :: c :: d :: r =>
      if followsFour a b && isContinuation c && isContinuation d then
        some ((a.toNat - 0xf0) * 262144 + payload b * 4096 + payload c * 64 + payload d, r)
      else none
    | _ => none
  else none

theorem length_of_sequence? {a : UInt8} {rest r : Bytes} {c : Nat}
    (h : sequence? a rest = some (c, r)) : r.length ≤ rest.length := by
  unfold sequence? at h
  repeat' split at h
  all_goals cases h
  all_goals simp
  all_goals omega

/-- The runes of `b` in reverse, in front of `acc`. -/
def runesOnto (acc : List Rune) (b : Bytes) : List Rune :=
  match b with
  | [] => acc
  | a :: rest =>
    match _h : sequence? a rest with
    | some (c, r) => runesOnto (.code c :: acc) r
    | none => runesOnto (.stray a :: acc) rest
termination_by b.length
decreasing_by
  · have := length_of_sequence? _h
    simp only [List.length_cons]
    omega
  · simp

/-- The text as code points and stray bytes, in order. -/
def runes (b : Bytes) : List Rune := (runesOnto [] b).reverse

/-- The UTF-8 bytes of a code point. -/
def encode (c : Nat) : Bytes :=
  if c < 0x80 then [c.toUInt8]
  else if c < 0x800 then [(0xc0 + c / 64).toUInt8, (0x80 + c % 64).toUInt8]
  else if c < 0x10000 then
    [(0xe0 + c / 4096).toUInt8, (0x80 + c / 64 % 64).toUInt8, (0x80 + c % 64).toUInt8]
  else
    [(0xf0 + c / 262144).toUInt8, (0x80 + c / 4096 % 64).toUInt8, (0x80 + c / 64 % 64).toUInt8,
      (0x80 + c % 64).toUInt8]

/-- Whether the text is well-formed UTF-8. -/
def isUtf8 (b : Bytes) : Bool :=
  (runes b).all fun
    | .code _ => true
    | .stray _ => false

/-! ### Text from behind -/

/-- The code point whose UTF-8 a text is, if it is that of one code point. -/
def codePoint? : Bytes → Option Nat
  | [] => none
  | a :: rest =>
    match sequence? a rest with
    | some (n, []) => some n
    | _ => none

/-- How many bytes in front of the last one are looked at: those that continue a sequence, and the
one before them. -/
def reach (before : Bytes) : Nat := ((before.take 3).takeWhile isContinuation).length + 1

/-- The rune at the end of a text whose last byte is `c`, and what is in front of the rune, in
reverse. -/
def lastRune (c : UInt8) (before : Bytes) : Rune × Bytes :=
  if c < 0x80 then (.code c.toNat, before)
  else
    match codePoint? (c :: before.take (reach before)).reverse with
    | some n => (.code n, before.drop (reach before))
    | none => (.stray c, before)

theorem length_lastRune_le (c : UInt8) (before : Bytes) :
    (lastRune c before).2.length ≤ before.length := by
  rw [lastRune]
  split
  · exact Nat.le_refl _
  · split
    · simp
    · exact Nat.le_refl _

/-- The number of bytes in front of the last rune with a property, in a text given in reverse. -/
def lastIndexFrom? (p : Rune → Bool) : Bytes → Option Nat
  | [] => none
  | c :: before =>
    let last := lastRune c before
    if p last.1 then some last.2.length else lastIndexFrom? p last.2
termination_by back => back.length
decreasing_by
  exact Nat.lt_succ_of_le (length_lastRune_le c before)

/-- The number of bytes in front of the last rune with a property. -/
def lastIndex? (p : Rune → Bool) (b : Bytes) : Option Nat := lastIndexFrom? p b.reverse

end FormReader.Text
