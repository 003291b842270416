import FormReader.Json.Text
import FormReader.Json.Write
import FormReader.Proofs.Printed
import FormReader.Proofs.Utf8

/-!
# Strings and numbers through JSON

A character of a string is written as itself or as an escape, and both are read as its bytes. An
integer of 64 bits is written as a run of number bytes, and its digits fit a word, so that it is
read as an integer and never as a number with a fraction.
-/

namespace FormReader.Json

/-! ### Strings -/

theorem stringFrom_quote (acc rest : Bytes) :
    stringFrom acc (34 :: rest) = some (acc.reverse, rest) := by
  rw [stringFrom]
  rfl

theorem stringFrom_escape {r s rest : Bytes} (h : escape? r = some (s, rest)) (acc : Bytes) :
    stringFrom acc (92 :: r) = stringFrom (s.reverse ++ acc) rest := by
  rw [stringFrom, if_neg (by decide), if_pos (by decide)]
  split
  · next he =>
      rw [h] at he
      cases he
      rw [List.reverseAux_eq]
  · next he =>
      rw [h] at he
      cases he

/-- Bytes other than the quote and the backslash stand for themselves. -/
theorem stringFrom_plain {b : Bytes} (h : ∀ c ∈ b, c ≠ 34 ∧ c ≠ 92) (acc rest : Bytes) :
    stringFrom acc (b ++ rest) = stringFrom (b.reverse ++ acc) rest := by
  induction b generalizing acc with
  | nil => rfl
  | cons c b ih =>
      obtain ⟨⟨hquote, hbackslash⟩, hmore⟩ := List.forall_mem_cons.mp h
      rw [List.cons_append, stringFrom, if_neg (by simpa using hquote),
        if_neg (by simpa using hbackslash), ih hmore]
      simp

theorem hex?_hexDigits {n : Nat} (h : n < 65536) : hex? (Bytes.hexDigits 4 n) = some n := by
  have hvalue : ∀ d : Fin 16, hexValue? (Bytes.hexDigit d.val) = some d.val := by decide
  have hdigit (d : Nat) : hexValue? (Bytes.hexDigit (d % 16)) = some (d % 16) :=
    hvalue ⟨d % 16, Nat.mod_lt _ (by decide)⟩
  simp [hex?, Bytes.hexDigits, List.range, List.range.loop, hdigit]
  omega

/-- An escape of four hexadecimal digits that is no surrogate stands for its code point. -/
theorem unicode?_hexDigits {n : Nat} (h : n < 0xd800) (rest : Bytes) :
    unicode? (Bytes.hexDigits 4 n ++ rest) = some (Text.encode n, rest) := by
  have hhex : hex? (Bytes.hexDigits 4 n) = some n := hex?_hexDigits (Nat.lt_trans h (by decide))
  have hsurrogate : ¬(0xd800 ≤ n ∧ n < 0xe000) := by omega
  obtain ⟨a, b, c, d, hdigits⟩ : ∃ a b c d, Bytes.hexDigits 4 n = [a, b, c, d] := ⟨_, _, _, _, rfl⟩
  rw [hdigits] at hhex ⊢
  simp only [List.cons_append, List.nil_append, unicode?, hhex, if_neg hsurrogate]

/-- Of all characters only the quote and the backslash have these bytes. -/
theorem plain_of_mem_encode {n : Nat} (hn : n.isValidChar) (hquote : n ≠ 34)
    (hbackslash : n ≠ 92) {c : UInt8} (hc : c ∈ Text.encode n) : c ≠ 34 ∧ c ≠ 92 := by
  have hbyte {m : Nat} (h : m < 256) : m.toUInt8.toNat = m := UInt8.toNat_ofNat_of_lt' h
  suffices hlarge : c.toNat = n ∨ 0x80 ≤ c.toNat by
    constructor
    · rintro rfl
      exact hlarge.elim (fun h => hquote h.symm) (by decide)
    · rintro rfl
      exact hlarge.elim (fun h => hbackslash h.symm) (by decide)
  rw [Nat.isValidChar] at hn
  rw [Text.encode] at hc
  split_ifs at hc with hone htwo hthree
  · rw [List.mem_singleton.mp hc]
    exact .inl (hbyte (by omega))
  all_goals
    right
    simp only [List.mem_cons, List.not_mem_nil, or_false] at hc
    rcases hc with rfl | rfl | rfl | rfl <;> rw [hbyte (by omega)] <;> omega

/-- What is written for a character is read as its bytes. -/
theorem stringFrom_escapeCode {n : Nat} (hn : n.isValidChar) (acc rest : Bytes) :
    stringFrom acc (escapeCode n ++ rest) = stringFrom ((Text.encode n).reverse ++ acc) rest := by
  rw [escapeCode]
  split_ifs with hself hfeed hreturn hback hform htab hcode
  · simp only [Bool.or_eq_true, decide_eq_true_eq] at hself
    obtain rfl | rfl := hself
    · exact stringFrom_escape rfl acc
    · exact stringFrom_escape rfl acc
  · subst hfeed
    exact stringFrom_escape rfl acc
  · subst hreturn
    exact stringFrom_escape rfl acc
  · subst hback
    exact stringFrom_escape rfl acc
  · subst hform
    exact stringFrom_escape rfl acc
  · subst htab
    exact stringFrom_escape rfl acc
  · have hsmall : n < 0xd800 := by
      simp only [Bool.or_eq_true, decide_eq_true_eq] at hcode
      omega
    exact stringFrom_escape (r := 117 :: (Bytes.hexDigits 4 n ++ rest))
      (unicode?_hexDigits hsmall rest) acc
  · simp only [Bool.or_eq_true, decide_eq_true_eq, not_or] at hself
    exact stringFrom_plain (fun c hc => plain_of_mem_encode hn hself.1 hself.2 hc) acc rest

/-- What is written for the characters of a string is read as their bytes, up to the quote that ends
it. -/
theorem stringFrom_characters (cs : List Char) (acc rest : Bytes) :
    stringFrom acc (cs.flatMap (escapeCode ·.toNat) ++ 34 :: rest) =
      some (acc.reverse ++ cs.flatMap String.utf8EncodeChar, rest) := by
  induction cs generalizing acc with
  | nil => simp [stringFrom_quote]
  | cons c cs ih =>
      have hvalid : c.toNat.isValidChar := c.valid
      rw [List.flatMap_cons, List.append_assoc, stringFrom_escapeCode hvalid, ih, List.flatMap_cons,
        Text.encode_toNat]
      simp

/-- What is written for well-formed text is read as that text. -/
theorem stringFrom_runes {b : Bytes} (h : Text.isUtf8 b = true) (rest : Bytes) :
    stringFrom [] ((Text.runes b).flatMap escapeRune ++ 34 :: rest) = some (b, rest) := by
  obtain ⟨s, rfl⟩ := (Text.isUtf8_iff b).mp h
  have hrunes : (Text.runes (Bytes.ofString s)).flatMap escapeRune =
      s.toList.flatMap (escapeCode ·.toNat) := by
    rw [Text.runes_ofString, List.flatMap_map]
    rfl
  rw [hrunes, stringFrom_characters]
  rfl

/-! ### Numbers -/

theorem digitsValue_decimal (n : Nat) : Decimal.digitsValue (Bytes.decimal n) = n := by
  have hdigits (ds : Bytes) : Decimal.digitsValue ds =
      Nat.ofDigits 10 (ds.reverse.map fun d => d.toNat - 48) := by
    rw [Nat.ofDigits_eq_foldr, List.foldr_map, List.foldr_reverse, Decimal.digitsValue]
    simp [Nat.add_comm]
  rw [hdigits, Bytes.ofDigits_decimal]

theorem word?_decimal {n : Nat} (h : n < Word.limit) : word? (Bytes.decimal n) = some n := by
  have hall : (Bytes.decimal n).all Line.isDigit = true :=
    List.all_eq_true.mpr fun _ hc => Bytes.isDigit_of_mem_decimal hc
  rw [word?, if_pos hall, digitsValue_decimal]
  exact if_pos h

theorem minus_decimal (n : Nat) : Decimal.minus (Bytes.decimal n) = (false, Bytes.decimal n) := by
  obtain ⟨c, r, hcr⟩ := List.exists_cons_of_ne_nil (Bytes.decimal_ne_nil n)
  have hc : Line.isDigit c = true := Bytes.isDigit_of_mem_decimal (n := n) (by simp [hcr])
  rw [hcr, Decimal.minus, if_neg]
  rintro h
  rw [beq_iff_eq.mp h] at hc
  cases hc

theorem signed?_natAbs (v : Int64) {negative : Bool} (hneg : negative = true ↔ v.toInt < 0) :
    signed? negative v.toInt.natAbs = some v := by
  have hlo : -2 ^ 63 ≤ v.toInt := Int64.le_toInt v
  have hhi : v.toInt < 2 ^ 63 := Int64.toInt_lt v
  have hsize : (if negative then -(v.toInt.natAbs : Int) else v.toInt.natAbs) = v.toInt := by
    split
    · next h =>
        have := hneg.mp h
        omega
    · next h =>
        have := mt hneg.mpr h
        omega
  have hrange : (decide (-(Word.signedLimit : Int) ≤ v.toInt) &&
      decide (v.toInt < Word.signedLimit)) = true := by
    simp
    omega
  rw [signed?, hsize, if_pos hrange, Int64.ofInt_toInt]

theorem number?_of_minus {run body : Bytes} {negative : Bool} {n : Nat}
    (hminus : Decimal.minus run = (negative, body)) (hword : word? body = some n) :
    number? run = (signed? negative n).map .int := by
  rw [number?, hminus]
  dsimp only
  rw [hword]

/-- An integer is read back from its decimal digits. -/
theorem number?_decimalInt (v : Int64) : number? (Bytes.decimalInt v.toInt) = some (.int v) := by
  have hlo : -2 ^ 63 ≤ v.toInt := Int64.le_toInt v
  have hhi : v.toInt < 2 ^ 63 := Int64.toInt_lt v
  have hword : word? (Bytes.decimal v.toInt.natAbs) = some v.toInt.natAbs := by
    apply word?_decimal
    rw [Word.limit]
    omega
  have hminus : Decimal.minus (Bytes.decimalInt v.toInt) =
      (decide (v.toInt < 0), Bytes.decimal v.toInt.natAbs) := by
    cases v.toInt with
    | ofNat n => exact minus_decimal n
    | negSucc n =>
        rw [decide_eq_true (Int.negSucc_lt_zero n)]
        rfl
  rw [number?_of_minus hminus hword, signed?_natAbs v (by simp)]
  rfl

theorem isNumberByte_of_mem_decimalInt {i : Int} {c : UInt8} (hc : c ∈ Bytes.decimalInt i) :
    isNumberByte c = true := by
  have hdigit {n : Nat} (hc : c ∈ Bytes.decimal n) : isNumberByte c = true := by
    rw [isNumberByte, Bytes.isDigit_of_mem_decimal hc]
    rfl
  cases i with
  | ofNat n => exact hdigit hc
  | negSucc n =>
      rcases List.mem_cons.mp hc with rfl | hc
      · rfl
      · exact hdigit hc

theorem exists_decimalInt_eq (i : Int) :
    ∃ c r, Bytes.decimalInt i = c :: r ∧ isNumberByte c = true := by
  obtain ⟨c, r, hcr⟩ := List.exists_cons_of_ne_nil (Bytes.decimalInt_ne_nil i)
  exact ⟨c, r, hcr, isNumberByte_of_mem_decimalInt (i := i) (by simp [hcr])⟩

end FormReader.Json
