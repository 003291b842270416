import FormReader.Form.Text
import FormReader.Proofs.Grammar
import Mathlib.Data.Nat.Digits.Lemmas

/-!
# The text of readable forms

A form is readable if it is built from integers, proper lists and names that start no other token.
The text of such a form holds no NUL and no line feed, and it is cut into exactly the tokens that
the form consists of.

## Implementation notes

The printer builds its text in reverse in front of an argument. `text_pair` and `tailText_pair` give
the text by recursion on the form, and the rest of the module uses only these.
-/

namespace FormReader

namespace Bytes

theorem decimalOnto_eq (n : Nat) (acc : Bytes) : decimalOnto n acc = decimal n ++ acc := by
  induction n using Nat.strong_induction_on generalizing acc with
  | _ n ih =>
      rw [decimal, decimalOnto.eq_def n acc, decimalOnto.eq_def n []]
      split
      · rfl
      · rw [ih (n / 10) (by omega), ih (n / 10) (by omega) [digit (n % 10)]]
        simp

theorem decimal_of_lt {n : Nat} (h : n < 10) : decimal n = [digit n] := by
  rw [decimal, decimalOnto, if_pos h]

theorem decimal_of_ge {n : Nat} (h : 10 ≤ n) :
    decimal n = decimal (n / 10) ++ [digit (n % 10)] := by
  rw [decimal, decimalOnto, if_neg (by omega), decimalOnto_eq]

theorem toNat_digit {d : Nat} (h : d < 10) : (digit d).toNat = 48 + d := by
  rw [digit, Nat.toUInt8_eq, UInt8.toNat_ofNat']
  omega

theorem isDigit_digit {d : Nat} (h : d < 10) : Line.isDigit (digit d) = true := by
  have hd := toNat_digit h
  simp only [Line.isDigit, Bool.and_eq_true, decide_eq_true_eq, UInt8.le_iff_toNat_le, hd]
  exact ⟨by simp, by simp; omega⟩

theorem isDigit_of_mem_decimal {n : Nat} {c : UInt8} (h : c ∈ decimal n) :
    Line.isDigit c = true := by
  induction n using Nat.strong_induction_on with
  | _ n ih =>
      by_cases hn : n < 10
      · rw [decimal_of_lt hn, List.mem_singleton] at h
        exact h ▸ isDigit_digit hn
      · rw [decimal_of_ge (by omega), List.mem_append, List.mem_singleton] at h
        rcases h with h | rfl
        · exact ih (n / 10) (by omega) h
        · exact isDigit_digit (by omega)

theorem decimal_ne_nil (n : Nat) : decimal n ≠ [] := by
  by_cases hn : n < 10
  · simp [decimal_of_lt hn]
  · simp [decimal_of_ge (Nat.le_of_not_lt hn)]

theorem decimalInt_ne_nil (i : Int) : decimalInt i ≠ [] := by
  cases i with
  | ofNat n => exact decimal_ne_nil n
  | negSucc n => exact List.cons_ne_nil _ _

/-- The digits of a numeral stand for the number. -/
theorem ofDigits_decimal (n : Nat) :
    Nat.ofDigits 10 ((decimal n).reverse.map fun d => d.toNat - 48) = n := by
  induction n using Nat.strong_induction_on with
  | _ n ih =>
      by_cases hn : n < 10
      · simp [decimal_of_lt hn, toNat_digit hn]
      · rw [decimal_of_ge (by omega), List.reverse_append, List.map_append, Nat.ofDigits_append,
          ih (n / 10) (by omega)]
        simp [toNat_digit (Nat.mod_lt n (by omega : 0 < 10))]
        omega

theorem splitAt_of_not_mem {sep : UInt8} {b : Bytes} (h : sep ∉ b) : splitAt sep b = [b] := by
  induction b with
  | nil => rfl
  | cons c b ih =>
      rw [List.mem_cons, not_or] at h
      have hc : (c == sep) = false := by simpa using Ne.symm h.1
      have hb := ih h.2
      rw [splitAt] at hb ⊢
      rw [List.foldr_cons, hb, hc]
      rfl

end Bytes

namespace Form

/-! ### Readable forms -/

/-- Whether a name is read as a symbol of that name: it is not empty, no byte of it ends a token,
and it does not start like an integer. -/
def isReadableName : Bytes → Bool
  | [] => false
  | c :: r =>
    (c :: r).all (!Line.isSeparator ·) && !Line.isDigit c && !(c == 45 && Grammar.digitAhead r)

/-- Whether a form is built from integers, readable names and proper lists. -/
def isReadable : Form → Bool
  | .int _ => true
  | .symbol s => isReadableName s.name
  | .nil => true
  | .pair h t => h.isReadable && t.isReadable && t.isList
  | .marker _ => false
  | .absent => false

/-- The length of the longest name in a form. -/
def longestName : Form → Nat
  | .symbol s => s.name.length
  | .pair h t => max h.longestName t.longestName
  | _ => 0

/-- How deep lists are nested in a form. The empty list is one level. -/
def nesting : Form → Nat
  | .nil => 1
  | .pair h t => max (h.nesting + 1) t.nesting
  | _ => 0

/-! ### The text by recursion -/

/-- What follows the first element of a list. -/
def tailText (f : Form) : Bytes := (f.tailOnto []).reverse

/-- Both printers put their text in front of what is there. -/
theorem textOnto_tailOnto_eq (f : Form) :
    (∀ acc, f.textOnto acc = f.text.reverse ++ acc) ∧
      ∀ acc, f.tailOnto acc = f.tailText.reverse ++ acc := by
  induction f with
  | pair h t hh ht =>
      constructor
      · intro acc
        rw [text]
        simp [textOnto, hh.1, ht.2]
      · intro acc
        rw [tailText]
        simp [tailOnto, hh.1, ht.2]
  | _ =>
      constructor
      · intro acc
        simp [text, textOnto]
      · intro acc
        simp [tailText, tailOnto]

theorem text_pair (h t : Form) : (pair h t).text = 40 :: (h.text ++ t.tailText) := by
  rw [text, textOnto, (textOnto_tailOnto_eq t).2, (textOnto_tailOnto_eq h).1]
  simp

theorem tailText_pair (h t : Form) : (pair h t).tailText = 32 :: (h.text ++ t.tailText) := by
  rw [tailText, tailOnto, (textOnto_tailOnto_eq t).2, (textOnto_tailOnto_eq h).1]
  simp

theorem tailText_nil : nil.tailText = [41] := rfl

theorem text_int (v : Int64) : (int v).text = Bytes.decimalInt v.toInt := by
  simp [text, textOnto, atomText]

theorem text_symbol (s : Symbol) : (symbol s).text = s.name := by
  simp [text, textOnto, atomText]

theorem text_nil : nil.text = [40, 41] := by
  decide

/-! ### The bytes of the text -/

/-- A readable name has no byte that ends a token. -/
theorem not_isSeparator_of_mem_name {name : Bytes} (h : isReadableName name = true) {c : UInt8}
    (hc : c ∈ name) : Line.isSeparator c = false := by
  cases name with
  | nil => cases hc
  | cons d r =>
      simp only [isReadableName, Bool.and_eq_true, List.all_eq_true, Bool.not_eq_true'] at h
      exact h.1.1 c hc

theorem not_isSeparator_of_mem_decimalInt {i : Int} {c : UInt8} (hc : c ∈ Bytes.decimalInt i) :
    Line.isSeparator c = false := by
  cases i with
  | ofNat n => exact Grammar.not_isSeparator_of_isDigit (Bytes.isDigit_of_mem_decimal hc)
  | negSucc n =>
      rcases List.mem_cons.mp hc with rfl | hc
      · rfl
      · exact Grammar.not_isSeparator_of_isDigit (Bytes.isDigit_of_mem_decimal hc)

/-- The bytes of the text of a readable form are those of its names and numbers, parentheses and
blanks. -/
theorem of_mem_text (f : Form) (hf : f.isReadable = true) {c : UInt8} :
    (c ∈ f.text → Line.isSeparator c = false ∨ c = 40 ∨ c = 41 ∨ c = 32) ∧
      (f.isList = true → c ∈ f.tailText →
        Line.isSeparator c = false ∨ c = 40 ∨ c = 41 ∨ c = 32) := by
  induction f with
  | int v =>
      refine ⟨fun hc => .inl ?_, fun h => by cases h⟩
      rw [text_int] at hc
      exact not_isSeparator_of_mem_decimalInt hc
  | symbol s =>
      refine ⟨fun hc => ?_, fun h => by cases h⟩
      rw [text_symbol] at hc
      exact .inl (not_isSeparator_of_mem_name hf hc)
  | nil =>
      refine ⟨fun hc => ?_, fun _ hc => ?_⟩
      · rw [text_nil] at hc
        simp at hc
        tauto
      · rw [tailText_nil] at hc
        simp at hc
        tauto
  | pair h t hh ht =>
      simp only [isReadable, Bool.and_eq_true] at hf
      obtain ⟨⟨hh', ht'⟩, hlist⟩ := hf
      have hboth : c ∈ h.text ++ t.tailText →
          Line.isSeparator c = false ∨ c = 40 ∨ c = 41 ∨ c = 32 := by
        intro hc
        rcases List.mem_append.mp hc with hc | hc
        · exact (hh hh').1 hc
        · exact (ht ht').2 hlist hc
      refine ⟨fun hc => ?_, fun _ hc => ?_⟩
      · rw [text_pair, List.mem_cons] at hc
        rcases hc with rfl | hc
        · simp
        · exact hboth hc
      · rw [tailText_pair, List.mem_cons] at hc
        rcases hc with rfl | hc
        · simp
        · exact hboth hc
  | _ => cases hf

theorem zero_not_mem_text {f : Form} (hf : f.isReadable = true) : 0 ∉ f.text := by
  intro h
  have hc := (of_mem_text f hf).1 h
  simp [Line.isSeparator] at hc

theorem newline_not_mem_text {f : Form} (hf : f.isReadable = true) : 10 ∉ f.text := by
  intro h
  have hc := (of_mem_text f hf).1 h
  simp [Line.isSeparator] at hc

/-! ### The tokens of a form -/

open Grammar (Token lex)

mutual

/-- The tokens of a form. -/
def tokens : Form → List Token
  | .int v => [.integer (v.toInt < 0) (Bytes.decimal v.toInt.natAbs)]
  | .symbol s => [.name s.name]
  | .pair h t => .opening :: (tokens h ++ tailTokens t)
  | _ => [.opening, .closing]

/-- The tokens of the elements of a list, and of its end. -/
def tailTokens : Form → List Token
  | .pair h t => tokens h ++ tailTokens t
  | _ => [.closing]

end

/-- Text behind which every token ends. -/
def EndsToken (rest : Bytes) : Prop := ∀ c r, rest = c :: r → Line.isSeparator c = true

theorem EndsToken.not_isDigit {rest r : Bytes} {c : UInt8} (h : EndsToken rest)
    (hr : rest = c :: r) : Line.isDigit c = false := by
  by_contra hd
  have hs := Grammar.not_isSeparator_of_isDigit (Bool.not_eq_false _ ▸ hd)
  simp [h c r hr] at hs

theorem span_append {p : UInt8 → Bool} (word rest : Bytes) (hw : ∀ c ∈ word, p c = true)
    (hrest : ∀ c r, rest = c :: r → p c = false) :
    (word ++ rest).takeWhile p = word ∧ (word ++ rest).dropWhile p = rest := by
  rw [List.takeWhile_append_of_pos hw, List.dropWhile_append_of_pos hw]
  cases rest with
  | nil => simp
  | cons c r => simp [hrest c r rfl]

theorem digitAhead_append (r : Bytes) {rest : Bytes} (h : EndsToken rest) :
    Grammar.digitAhead (r ++ rest) = Grammar.digitAhead r := by
  cases r with
  | cons c r => rfl
  | nil =>
      cases rest with
      | nil => rfl
      | cons c r => simp [Grammar.digitAhead, h.not_isDigit rfl]

theorem lex_name_append {name rest : Bytes} (hn : isReadableName name = true)
    (hrest : EndsToken rest) : lex (name ++ rest) = ⟨.name name, name ++ rest⟩ :: lex rest := by
  cases name with
  | nil => cases hn
  | cons c r =>
      simp only [isReadableName, List.all_cons, Bool.and_eq_true, Bool.not_eq_true',
        List.all_eq_true] at hn
      obtain ⟨⟨⟨hc, hr⟩, hd⟩, hm⟩ := hn
      obtain ⟨htake, hdrop⟩ := span_append (p := (!Line.isSeparator ·)) r rest (by simpa using hr)
        (fun c' r' h => by simp [hrest c' r' h])
      have hminus : ¬(c = 45 ∧ Grammar.digitAhead (r ++ rest) = true) := by
        rw [digitAhead_append r hrest]
        simpa using hm
      rw [List.cons_append, Grammar.lex_name hc hd hminus, htake, hdrop]

theorem span_decimal (n : Nat) {rest : Bytes} (hrest : EndsToken rest) :
    (Bytes.decimal n ++ rest).takeWhile Line.isDigit = Bytes.decimal n ∧
      (Bytes.decimal n ++ rest).dropWhile Line.isDigit = rest :=
  span_append _ _ (fun _ hc => Bytes.isDigit_of_mem_decimal hc) (fun _ _ h => hrest.not_isDigit h)

theorem lex_decimal_append (n : Nat) {rest : Bytes} (hrest : EndsToken rest) :
    lex (Bytes.decimal n ++ rest) =
      ⟨.integer false (Bytes.decimal n), Bytes.decimal n ++ rest⟩ :: lex rest := by
  obtain ⟨htake, hdrop⟩ := span_decimal n hrest
  obtain ⟨c, r, hcr⟩ := List.exists_cons_of_ne_nil (Bytes.decimal_ne_nil n)
  have hc : Line.isDigit c = true := Bytes.isDigit_of_mem_decimal (n := n) (by simp [hcr])
  rw [hcr, List.cons_append] at htake hdrop ⊢
  rw [List.takeWhile_cons_of_pos hc] at htake
  rw [List.dropWhile_cons_of_pos hc] at hdrop
  rw [Grammar.lex_digits hc, htake, hdrop]

theorem lex_minus_append (n : Nat) {rest : Bytes} (hrest : EndsToken rest) :
    lex (45 :: (Bytes.decimal n ++ rest)) =
      ⟨.integer true (Bytes.decimal n), 45 :: (Bytes.decimal n ++ rest)⟩ :: lex rest := by
  obtain ⟨htake, hdrop⟩ := span_decimal n hrest
  have hahead : Grammar.digitAhead (Bytes.decimal n ++ rest) = true := by
    obtain ⟨c, r, hcr⟩ := List.exists_cons_of_ne_nil (Bytes.decimal_ne_nil n)
    have hc : Line.isDigit c = true := Bytes.isDigit_of_mem_decimal (n := n) (by simp [hcr])
    simpa [hcr, Grammar.digitAhead] using hc
  rw [Grammar.lex_minus hahead, htake, hdrop]

/-- The text of an integer is one token, with a minus sign if the integer is negative. -/
theorem lex_int_append (v : Int64) {rest : Bytes} (hrest : EndsToken rest) :
    (lex ((int v).text ++ rest)).map (·.token) = (int v).tokens ++ (lex rest).map (·.token) := by
  rw [text_int, tokens]
  cases v.toInt with
  | ofNat n => simp [Bytes.decimalInt, lex_decimal_append n hrest]
  | negSucc n => simp [Bytes.decimalInt, lex_minus_append (n + 1) hrest, Int.natAbs_negSucc]

theorem endsToken_tailText {f : Form} (hf : f.isList = true) (rest : Bytes) :
    EndsToken (f.tailText ++ rest) := by
  intro c r h
  cases f with
  | nil =>
      cases h
      rfl
  | pair h t =>
      rw [tailText_pair] at h
      cases h
      rfl
  | _ => cases hf

/-- The text of a readable form is cut into the tokens of the form. -/
theorem lex_text (f : Form) (hf : f.isReadable = true) :
    (∀ rest, EndsToken rest →
      (lex (f.text ++ rest)).map (·.token) = f.tokens ++ (lex rest).map (·.token)) ∧
      (f.isList = true → ∀ rest,
        (lex (f.tailText ++ rest)).map (·.token) = f.tailTokens ++ (lex rest).map (·.token)) := by
  induction f with
  | int v =>
      refine ⟨fun rest hrest => ?_, fun h => by cases h⟩
      exact lex_int_append v hrest
  | symbol s =>
      refine ⟨fun rest hrest => ?_, fun h => by cases h⟩
      rw [text_symbol, lex_name_append hf hrest]
      rfl
  | nil =>
      refine ⟨fun rest _ => ?_, fun _ rest => ?_⟩
      · simp [text_nil, tokens]
      · simp [tailText_nil, tailTokens]
  | pair h t hh ht =>
      simp only [isReadable, Bool.and_eq_true] at hf
      obtain ⟨⟨hh', ht'⟩, hlist⟩ := hf
      have htail : ∀ rest, (lex (h.text ++ t.tailText ++ rest)).map (·.token) =
          h.tokens ++ t.tailTokens ++ (lex rest).map (·.token) := by
        intro rest
        rw [List.append_assoc, (hh hh').1 _ (endsToken_tailText hlist rest), (ht ht').2 hlist,
          List.append_assoc]
      constructor
      · intro rest _
        rw [text_pair, List.cons_append, Grammar.lex_opening, List.map_cons, htail]
        simp [tokens]
      · intro _ rest
        rw [tailText_pair, List.cons_append, Grammar.lex_blank rfl, htail]
        simp [tailTokens]
  | _ => cases hf

theorem lexLine_text {f : Form} (hf : f.isReadable = true) : Grammar.lexLine f.text = lex f.text :=
  Grammar.lexLine_of_zero_not_mem (zero_not_mem_text hf)

end Form

end FormReader
