import FormReader.Proofs.CursorReading
import FormReader.Proofs.Printed
import Mathlib.Data.Int.ModEq

/-!
# Integer literals in words

The digits of a literal can be accumulated in one unsigned word of 64 bits. The word wraps around
where the value does not fit, so that the limit is looked at before a digit is taken, and that it
was passed is not forgotten. What comes of it is exact for literals of any length: the value where
it is in range, and an error with the whole literal or the value modulo 2^64 where it is not.

## Implementation notes

`Accumulator.Holds` is the invariant: the word is the value modulo 2^64, and the flag says whether
the value is beyond the limit, even after the word has wrapped. `integer_eq_inWords` says that a
reader that accumulates its integers in words is the reader that takes the value of the digits as a
whole.
-/

namespace FormReader

/-- What the digits that were taken have come to. -/
structure Accumulator where
  word : UInt64 := 0
  /-- Whether the limit was passed. -/
  beyond : Bool := false
  deriving DecidableEq, Repr

namespace Accumulator

/-- The largest value that a literal may have, its sign apart. -/
def limit (negative : Bool) : UInt64 :=
  if negative then 9223372036854775808 else 9223372036854775807

/-- Takes a digit. Whether it leads beyond the limit is told from the word before it. -/
def take (limit : UInt64) (a : Accumulator) (c : UInt8) : Accumulator :=
  let d := (c - 48).toUInt64
  { word := a.word * 10 + d
    beyond := if !a.beyond && (limit - d) / 10 < a.word then true else a.beyond }

/-- Takes the digits at a place of a line, and goes behind them. -/
def along (limit : UInt64) (a : Accumulator) (pos : Nat) : Bytes → Accumulator × Cursor
  | [] => (a, ⟨pos, []⟩)
  | c :: rest =>
    if Line.isDigit c then along limit (a.take limit c) (pos + 1) rest else (a, ⟨pos, c :: rest⟩)

/-- The accumulator is that of digits with value `n`. -/
structure Holds (limit : UInt64) (a : Accumulator) (n : Nat) : Prop where
  word : a.word.toNat = n % 2 ^ 64
  beyond : a.beyond = true ↔ limit.toNat < n

theorem nine_le_limit (negative : Bool) : 9 ≤ (limit negative).toNat := by
  cases negative with
  | _ => decide

theorem toNat_digit {c : UInt8} (h : Line.isDigit c = true) :
    (c - 48).toUInt64.toNat = c.toNat - 48 ∧ c.toNat ≤ 57 := by
  simp only [Line.isDigit, Bool.and_eq_true, decide_eq_true_eq, UInt8.le_iff_toNat_le] at h
  obtain ⟨hlow, hhigh⟩ := h
  rw [UInt8.toNat_toUInt64, UInt8.toNat_sub_of_le _ _ (UInt8.le_iff_toNat_le.mpr hlow)]
  exact ⟨rfl, hhigh⟩

/-- As long as the word has not wrapped, the next digit leads beyond the limit just if the word is
above what the limit leaves room for. -/
theorem room_lt_iff {limit d : UInt64} (word : UInt64) (hd : d.toNat ≤ 9)
    (hlimit : 9 ≤ limit.toNat) :
    (limit - d) / 10 < word ↔ limit.toNat < 10 * word.toNat + d.toNat := by
  have hle : d ≤ limit := UInt64.le_iff_toNat_le.mpr (hd.trans hlimit)
  rw [UInt64.lt_iff_toNat_lt, UInt64.toNat_div, UInt64.toNat_sub_of_le _ _ hle]
  have hten : (10 : UInt64).toNat = 10 := rfl
  rw [hten]
  omega

theorem Holds.take {limit : UInt64} {a : Accumulator} {n : Nat} (h : a.Holds limit n)
    (hlimit : 9 ≤ limit.toNat) {c : UInt8} (hc : Line.isDigit c = true) :
    (a.take limit c).Holds limit (10 * n + (c.toNat - 48)) := by
  obtain ⟨hdigit, hc9⟩ := toNat_digit hc
  have hword := h.word
  constructor
  · rw [Accumulator.take, UInt64.toNat_add, UInt64.toNat_mul, hdigit, hword]
    have hten : (10 : UInt64).toNat = 10 := rfl
    rw [hten]
    omega
  · rw [Accumulator.take]
    cases hbeyond : a.beyond with
    | true =>
        -- The limit was passed before, and the value has only grown.
        have hpassed := h.beyond.mp hbeyond
        simp only [Bool.not_true, Bool.false_and, Bool.false_eq_true, if_false, true_iff]
        omega
    | false =>
        have hwithin : ¬limit.toNat < n := fun hlt => by simp [h.beyond.mpr hlt] at hbeyond
        have hexact : a.word.toNat = n := by
          rw [hword]
          exact Nat.mod_eq_of_lt (Nat.lt_of_le_of_lt (Nat.le_of_not_lt hwithin) limit.toNat_lt)
        have hroom := room_lt_iff (d := (c - 48).toUInt64) a.word (by omega) hlimit
        rw [hdigit, hexact] at hroom
        simp only [Bool.not_false, Bool.true_and, decide_eq_true_eq, Bool.if_true_left,
          Bool.or_false, hroom]

/-- However many digits are taken, the accumulator holds their value. -/
theorem holds_foldl {limit : UInt64} (hlimit : 9 ≤ limit.toNat) {a : Accumulator} {n : Nat}
    (h : a.Holds limit n) {digits : Bytes} (hdigits : ∀ c ∈ digits, Line.isDigit c = true) :
    (digits.foldl (take limit) a).Holds limit
      (digits.foldl (fun n d => 10 * n + (d.toNat - 48)) n) := by
  induction digits generalizing a n with
  | nil => exact h
  | cons c digits ih =>
      rw [List.forall_mem_cons] at hdigits
      exact ih (h.take hlimit hdigits.1) hdigits.2

theorem holds_value {limit : UInt64} (hlimit : 9 ≤ limit.toNat) {digits : Bytes}
    (hdigits : ∀ c ∈ digits, Line.isDigit c = true) :
    (digits.foldl (take limit) {}).Holds limit (Scan.value digits) := by
  have hnone : ({} : Accumulator).Holds limit 0 := ⟨rfl, by simp⟩
  exact holds_foldl hlimit hnone hdigits

/-- All digits at the place are taken, and nothing behind them. -/
theorem along_eq (limit : UInt64) (a : Accumulator) (pos : Nat) (text : Bytes) :
    along limit a pos text =
      ((text.takeWhile Line.isDigit).foldl (take limit) a,
        ⟨pos + (text.takeWhile Line.isDigit).length, text.dropWhile Line.isDigit⟩) := by
  induction text generalizing a pos with
  | nil => rfl
  | cons c text ih =>
      rw [along]
      split
      · next hc =>
          rw [ih, List.takeWhile_cons_of_pos hc, List.dropWhile_cons_of_pos hc, List.length_cons,
            List.foldl_cons, Nat.add_assoc, Nat.add_comm 1]
      · next hc =>
          rw [List.takeWhile_cons_of_neg hc, List.dropWhile_cons_of_neg hc]
          rfl

/-- The integer that the word is taken for. -/
def signed (negative : Bool) (a : Accumulator) : Int64 :=
  if negative then -a.word.toInt64 else a.word.toInt64

/-- The integer is the value with its sign, modulo 2^64. -/
theorem Holds.signed_eq {limit : UInt64} {a : Accumulator} {n : Nat} (h : a.Holds limit n)
    (negative : Bool) : a.signed negative = Int64.ofInt (if negative then -(n : Int) else n) := by
  have hword : a.word.toInt64 = Int64.ofInt n := by
    have hofNat : a.word = UInt64.ofNat n := by
      apply UInt64.toNat_inj.mp
      rw [h.word, UInt64.toNat_ofNat']
    rw [hofNat]
    rfl
  rw [signed, hword]
  cases negative with
  | true => exact (Int64.ofInt_neg _).symm
  | false => rfl

/-- The flag tells just the values that are out of range. -/
theorem Holds.beyond_iff {negative : Bool} {a : Accumulator} {n : Nat}
    (h : a.Holds (limit negative) n) :
    let i : Int := if negative then -(n : Int) else n
    a.beyond = true ↔ ¬(-2 ^ 63 ≤ i ∧ i < 2 ^ 63) := by
  intro i
  rw [h.beyond]
  cases negative with
  | true =>
      have hlimit : (limit true).toNat = 2 ^ 63 := rfl
      have hi : i = -(n : Int) := rfl
      omega
  | false =>
      have hlimit : (limit false).toNat = 2 ^ 63 - 1 := rfl
      have hi : i = n := rfl
      omega

/-- What comes of a literal is told by the accumulator of its digits. -/
theorem Holds.literal_eq {negative : Bool} {a : Accumulator} {digits : Bytes}
    (h : a.Holds (limit negative) (Scan.value digits)) (wrap : Bool) :
    Grammar.literal wrap negative digits =
      if a.beyond && !wrap then .error (.integerOverflow (Grammar.literalText negative digits))
      else .ok (.int (a.signed negative)) := by
  have hbeyond := h.beyond_iff
  rw [h.signed_eq, Grammar.literal, Grammar.literalValue, ← Grammar.value_eq_ofDigits]
  dsimp only at hbeyond ⊢
  generalize (if negative then -(Scan.value digits : Int) else Scan.value digits) = i at hbeyond ⊢
  -- An error is met just where the flag is set and integers do not wrap.
  cases hflag : a.beyond with
  | true =>
      have hout := hbeyond.mp hflag
      cases wrap with
      | true => rw [if_pos (.inr rfl)]; rfl
      | false => rw [if_neg (by simpa using hout)]; rfl
  | false =>
      have hin : -2 ^ 63 ≤ i ∧ i < 2 ^ 63 := by
        by_contra hout
        rw [hbeyond.mpr hout] at hflag
        cases hflag
      rw [if_pos (.inl hin)]
      rfl

end Accumulator

namespace CursorReader

/-- Reads the digits at the cursor, behind the sign, and accumulates them in a word. -/
def integerInWords (negative : Bool) (r : CursorReader) : Except ReadError Form × CursorReader :=
  let (a, cursor) := Accumulator.along (Accumulator.limit negative) {} r.cursor.pos r.cursor.rest
  let later := { r with cursor }
  if a.beyond && !r.settings.wrap then
    let digits := r.cursor.rest.take (cursor.pos - r.cursor.pos)
    (.error (.integerOverflow (Grammar.literalText negative digits)), later)
  else (.ok (.int (a.signed negative)), later)

/-- Accumulating in words comes to the same as taking the value of the digits as a whole. -/
theorem integer_eq_inWords (negative : Bool) (r : CursorReader) :
    r.integer negative = r.integerInWords negative := by
  have hdigits : ∀ c ∈ r.cursor.rest.takeWhile Line.isDigit, Line.isDigit c = true := fun c hc =>
    List.mem_takeWhile_imp hc
  have hholds := Accumulator.holds_value (Accumulator.nine_le_limit negative) hdigits
  have htext : r.cursor.rest.take (r.cursor.rest.takeWhile Line.isDigit).length =
      r.cursor.rest.takeWhile Line.isDigit :=
    (List.prefix_iff_eq_take.mp (List.takeWhile_prefix _)).symm
  rw [integer, integerInWords, Accumulator.along_eq, ← Grammar.literal_eq_integer,
    hholds.literal_eq]
  dsimp only
  rw [Nat.add_sub_cancel_left, htext]
  split
  · rfl
  · rfl

/-! ### Literals -/

/-- The integers with the same last 64 bits as `n` are one. -/
theorem modEq_iff_eq_ofInt (w : Int64) (n : Int) :
    w.toInt ≡ n [ZMOD 2 ^ 64] ↔ w = Int64.ofInt n := by
  have hlow := Int64.le_toInt w
  have hhigh := Int64.toInt_lt w
  rw [eq_comm (a := w), Int64.ofInt_eq_iff_bmod_eq_toInt, Int.bmod_def, Int.ModEq]
  split
  · omega
  · omega

/-- What comes of a literal, by its value: the value itself where it is in range, and otherwise the
value modulo 2^64 if integers wrap, and an error with the whole literal if they do not. -/
def IsExact (wrap negative : Bool) (digits : Bytes) (result : Except ReadError Form) : Prop :=
  let n := Grammar.literalValue negative digits
  if wrap then ∃ v : Int64, result = .ok (.int v) ∧ ∀ w : Int64, w.toInt ≡ n [ZMOD 2 ^ 64] ↔ w = v
  else if -2 ^ 63 ≤ n ∧ n ≤ 2 ^ 63 - 1 then ∃ v : Int64, result = .ok (.int v) ∧ v.toInt = n
  else result = .error (.integerOverflow (Grammar.literalText negative digits))

theorem isExact_literal (wrap negative : Bool) (digits : Bytes) :
    IsExact wrap negative digits (Grammar.literal wrap negative digits) := by
  rw [IsExact, Grammar.literal]
  simp only [Int.le_sub_one_iff]
  split
  · next hwrap =>
      rw [if_pos (.inr hwrap)]
      exact ⟨_, rfl, fun w => modEq_iff_eq_ofInt w _⟩
  · next hwrap =>
      split
      · next hrange =>
          rw [if_pos (.inl hrange)]
          exact ⟨_, rfl, Int64.toInt_ofInt_of_le hrange.1 hrange.2⟩
      · next hrange =>
          rw [if_neg (not_or.mpr ⟨hrange, hwrap⟩)]
          rfl

section Literal

variable {digits rest : Bytes}

/-- The digits in front of a text that does not go on with a digit are all of its first digits. -/
theorem span_digits (hdigits : ∀ c ∈ digits, Line.isDigit c = true)
    (hrest : Grammar.digitAhead rest = false) :
    (digits ++ rest).takeWhile Line.isDigit = digits ∧
      (digits ++ rest).dropWhile Line.isDigit = rest := by
  apply Form.span_append digits rest hdigits
  rintro c text rfl
  exact hrest

theorem integer_of_digits (negative : Bool) {r : CursorReader}
    (hdigits : ∀ c ∈ digits, Line.isDigit c = true) (hrest : Grammar.digitAhead rest = false)
    (hr : r.cursor.rest = digits ++ rest) :
    r.integer negative = (Grammar.literal r.settings.wrap negative digits,
      { r with cursor := ⟨r.cursor.pos + digits.length, rest⟩ }) := by
  obtain ⟨htake, hdrop⟩ := span_digits hdigits hrest
  rw [integer, hr, htake, hdrop, Grammar.literal_eq_integer]

/-- The sign of a literal and its first digit tell that it is one. -/
theorem literal?_literalText (negative : Bool) (hne : digits ≠ [])
    (hdigits : ∀ c ∈ digits, Line.isDigit c = true) :
    Scan.literal? (Grammar.literalText negative digits ++ rest) =
      some (negative, digits ++ rest) := by
  obtain ⟨c, more, rfl⟩ := List.exists_cons_of_ne_nil hne
  have hc := hdigits c List.mem_cons_self
  cases negative with
  | true =>
      have hminus : Line.isDigit 45 = false := rfl
      simp [Grammar.literalText, Scan.literal?, Scan.startsWithDigit, hminus, hc]
  | false => simp [Grammar.literalText, Scan.literal?, hc]

/-- An expression that starts with a literal is read from its digits on. -/
theorem expression_eq_integerInWords (negative : Bool) {r : CursorReader} (hne : digits ≠ [])
    (hdigits : ∀ c ∈ digits, Line.isDigit c = true)
    (hr : r.cursor.rest = Grammar.literalText negative digits ++ rest) :
    r.expression = (if negative then r.advance else r).integerInWords negative := by
  obtain ⟨c, more, rfl⟩ := List.exists_cons_of_ne_nil hne
  have hc := hdigits c List.mem_cons_self
  rw [expression_eq, ← integer_eq_inWords]
  cases negative with
  | true =>
      have hpeek : r.cursor.peek = 45 := by
        simp [Cursor.peek, Cursor.peekAt, hr, Grammar.literalText]
      have hahead : r.cursor.peekAt 1 = c := by simp [Cursor.peekAt, hr, Grammar.literalText]
      rw [hpeek, hahead, if_neg (by decide), if_pos ⟨rfl, hc⟩]
      rfl
  | false =>
      have hpeek : r.cursor.peek = c := by
        simp [Cursor.peek, Cursor.peekAt, hr, Grammar.literalText]
      rw [hpeek, if_pos hc]
      rfl

/-- The digits of a literal, of any number and with leading zeros or without, are read to their end,
whether or not the value is in range; the line goes on behind them with whatever is no digit, or
ends there. What comes of them is exact. The accumulated word is what the reader of whole lines
takes the digits for. -/
theorem integer_exact (r : CursorReader) (negative : Bool) (digits rest : Bytes) (hne : digits ≠ [])
    (hdigits : ∀ c ∈ digits, Line.isDigit c = true) (hrest : Grammar.digitAhead rest = false)
    (hr : r.cursor.rest = Grammar.literalText negative digits ++ rest) :
    let behind : CursorReader :=
      { r with cursor := ⟨r.cursor.pos + (Grammar.literalText negative digits).length, rest⟩ }
    ∃ result, IsExact r.settings.wrap negative digits result ∧
      (if negative then r.advance else r).integerInWords negative = (result, behind) ∧
      r.expression = (result, behind) ∧
      ∀ isCommand, Scan.atom r.settings isCommand r.table
        (Grammar.literalText negative digits ++ rest) =
        (result.map fun x => (x, rest), r.table) := by
  intro behind
  have hinteger : (if negative then r.advance else r).integerInWords negative =
      (Grammar.literal r.settings.wrap negative digits, behind) := by
    rw [← integer_eq_inWords]
    cases negative with
    | true =>
        have hadvance : r.advance.cursor = ⟨r.cursor.pos + 1, digits ++ rest⟩ := by
          simp [advance, Cursor.advance, hr, Grammar.literalText]
        rw [if_pos rfl, integer_of_digits true hdigits hrest (congrArg Cursor.rest hadvance),
          hadvance, Nat.add_assoc, Nat.add_comm 1]
        rfl
    | false => exact integer_of_digits false hdigits hrest hr
  refine ⟨_, isExact_literal r.settings.wrap negative digits, hinteger, ?_, ?_⟩
  · rw [expression_eq_integerInWords negative hne hdigits hr, hinteger]
  · intro isCommand
    obtain ⟨htake, hdrop⟩ := span_digits hdigits hrest
    rw [Scan.atom, literal?_literalText negative hne hdigits, Grammar.literal_eq_integer]
    dsimp only
    rw [htake, hdrop]
    cases Scan.integer r.settings.wrap negative digits with
    | ok n => rfl
    | error e => rfl

end Literal

/-- The smallest integer with leading zeros, the first one that is too large, and one of twenty
digits that wraps. -/
theorem integer_exact_at_limits :
    let smallest : CursorReader := { cursor := ⟨0, "-0009223372036854775808)"⟩ }
    let large : CursorReader := { cursor := ⟨2, "9223372036854775808"⟩ }
    let wrapping : CursorReader :=
      { settings := { wrap := true }, cursor := ⟨0, "99999999999999999999x"⟩ }
    smallest.expression = (.ok (.int Int64.minValue), { smallest with cursor := ⟨23, ")"⟩ }) ∧
      large.expression =
        (.error (.integerOverflow "9223372036854775808"), { large with cursor := ⟨21, ""⟩ }) ∧
      wrapping.expression = (.ok (.int 7766279631452241919),
        { wrapping with cursor := ⟨20, "x"⟩ }) := by
  intro smallest large wrapping
  refine ⟨?_, ?_, ?_⟩
  · obtain ⟨result, hexact, -, hread, -⟩ :=
      integer_exact smallest true "0009223372036854775808" ")" (by decide)
      (by decide +kernel) (by decide) (by decide +kernel)
    obtain ⟨v, rfl, hv⟩ : ∃ v : Int64, result = .ok (.int v) ∧ v.toInt = -2 ^ 63 := by
      rw [IsExact, if_neg (by decide), if_pos (by decide +kernel)] at hexact
      exact hexact
    obtain rfl : v = Int64.minValue := Int64.toInt_inj.mp (hv.trans (by decide))
    exact hread
  · obtain ⟨result, hexact, -, hread, -⟩ :=
      integer_exact large false "9223372036854775808" "" (by decide)
      (by decide +kernel) (by decide) (by decide +kernel)
    rw [IsExact, if_neg (by decide), if_neg (by decide +kernel)] at hexact
    rw [hread, hexact]
    rfl
  · obtain ⟨result, hexact, -, hread, -⟩ :=
      integer_exact wrapping false "99999999999999999999" "x" (by decide)
      (by decide +kernel) (by decide) (by decide +kernel)
    rw [IsExact, if_pos (by decide)] at hexact
    obtain ⟨v, rfl, hv⟩ := hexact
    obtain rfl : 7766279631452241919 = v := (hv _).mp (by decide +kernel)
    exact hread

end CursorReader

end FormReader
