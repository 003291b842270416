import FormReader.Form.Text
import FormReader.Proofs.SpreadTokens

/-!
# Layouts of a form

A text may lay out the tokens of a form in many ways: with blanks, tabs, line feeds and comments
between them, or with nothing where a parenthesis keeps them apart. All layouts of a readable form
read as that form, and so have its fingerprint.

## Implementation notes

A comment lasts to the end of its line and may hold any other byte. A NUL ends the line for the
reader, so that what follows it in a comment is not even looked at. `textTokens` is computed along
the layout, one gap or token at a time.
-/

namespace FormReader

namespace Bytes

/-! ### Lines of a text -/

theorem exists_splitAt_eq (sep : UInt8) (b : Bytes) : ∃ p ps, splitAt sep b = p :: ps := by
  cases b with
  | nil => exact ⟨[], [], rfl⟩
  | cons c b =>
      rw [splitAt, List.foldr_cons]
      split
      · exact ⟨[], _, rfl⟩
      · split
        · exact ⟨[c], [], rfl⟩
        · exact ⟨_, _, rfl⟩

theorem splitAt_sep (sep : UInt8) (b : Bytes) : splitAt sep (sep :: b) = [] :: splitAt sep b := by
  rw [splitAt, List.foldr_cons, if_pos (beq_self_eq_true sep)]
  rfl

/-- Bytes without a separator are at the front of the first piece. -/
theorem splitAt_append {sep : UInt8} {w : Bytes} (hw : sep ∉ w) {b p : Bytes} {ps : List Bytes}
    (hb : splitAt sep b = p :: ps) : splitAt sep (w ++ b) = (w ++ p) :: ps := by
  induction w with
  | nil => exact hb
  | cons c w ih =>
      rw [List.mem_cons, not_or] at hw
      have hc : (c == sep) = false := by simpa using Ne.symm hw.1
      have hrest := ih hw.2
      rw [splitAt] at hrest ⊢
      rw [List.cons_append, List.foldr_cons, hrest, hc]
      rfl

/-- Bytes up to a separator are the first piece. -/
theorem splitAt_ended {sep : UInt8} {w : Bytes} (hw : sep ∉ w) (b : Bytes) :
    splitAt sep (w ++ sep :: b) = w :: splitAt sep b := by
  have hsplit := splitAt_append hw (splitAt_sep sep b)
  rwa [List.append_nil] at hsplit

end Bytes

namespace Grammar

open Form (EndsToken isReadableName)

theorem untilNul_append {w : Bytes} (hw : 0 ∉ w) (p : Bytes) :
    Line.untilNul (w ++ p) = w ++ Line.untilNul p := by
  apply List.takeWhile_append_of_pos
  intro c hc
  have hne : c ≠ 0 := fun h => hw (h ▸ hc)
  simpa using hne

/-! ### Gaps -/

/-- What may stand between tokens: blanks, tabs, line feeds, and comments that are ended by a line
feed. -/
inductive Gap : Bytes → Prop
  | none : Gap []
  | blank {c : UInt8} {b : Bytes} (hc : c = 32 ∨ c = 9 ∨ c = 10) (h : Gap b) : Gap (c :: b)
  | comment {remark b : Bytes} (hremark : 10 ∉ remark) (h : Gap b) : Gap (59 :: (remark ++ 10 :: b))

/-- What may stand behind the last token: the last comment need not be ended. -/
inductive Ending : Bytes → Prop
  | gap {b : Bytes} (h : Gap b) : Ending b
  | comment {b remark : Bytes} (h : Gap b) (hremark : 10 ∉ remark) : Ending (b ++ 59 :: remark)

theorem lexLine_nil : lexLine [] = [] := lex_nil

theorem textTokens_nil : textTokens [] = [] := by
  rw [textTokens, Bytes.splitAt_of_not_mem (by simp), List.flatMap_cons, lexLine_nil]
  rfl

theorem textTokens_newline (b : Bytes) : textTokens (10 :: b) = textTokens b := by
  rw [textTokens, Bytes.splitAt_sep, List.flatMap_cons, lexLine_nil, List.nil_append, textTokens]

/-- Tokens may be cut off the front of a text, if they can be cut off the front of its first
line. -/
theorem textTokens_append {w : Bytes} (tokens : List Token) (h10 : 10 ∉ w) (h0 : 0 ∉ w) (b : Bytes)
    (hlex : ∀ p ps, Bytes.splitAt 10 b = p :: ps →
      (lex (w ++ Line.untilNul p)).map (·.token) =
        tokens ++ (lex (Line.untilNul p)).map (·.token)) :
    textTokens (w ++ b) = tokens ++ textTokens b := by
  obtain ⟨p, ps, hb⟩ := Bytes.exists_splitAt_eq 10 b
  rw [textTokens, textTokens, Bytes.splitAt_append h10 hb, hb, List.flatMap_cons, List.flatMap_cons,
    List.map_append, List.map_append, lexLine, lexLine, untilNul_append h0, hlex p ps hb,
    List.append_assoc]

theorem textTokens_blank {c : UInt8} (hc : c = 32 ∨ c = 9 ∨ c = 10) (b : Bytes) :
    textTokens (c :: b) = textTokens b := by
  have hblank (c : UInt8) (h : Line.isBlank c = true) (h10 : 10 ∉ [c]) (h0 : 0 ∉ [c]) :
      textTokens (c :: b) = textTokens b := by
    apply textTokens_append (w := [c]) [] h10 h0
    intro p ps _
    rw [List.singleton_append, lex_blank h]
    rfl
  rcases hc with rfl | rfl | rfl
  · exact hblank 32 rfl (by decide) (by decide)
  · exact hblank 9 rfl (by decide) (by decide)
  · exact textTokens_newline b

/-- A comment has no tokens, whatever bytes it holds. -/
theorem lexLine_comment (remark : Bytes) : lexLine (59 :: remark) = [] := by
  rw [lexLine, Line.untilNul, List.takeWhile_cons_of_pos (by decide), lex]
  rfl

theorem textTokens_comment {remark : Bytes} (hremark : 10 ∉ remark) (b : Bytes) :
    textTokens (59 :: (remark ++ 10 :: b)) = textTokens b := by
  have h10 : 10 ∉ 59 :: remark := by simpa using hremark
  rw [textTokens, ← List.cons_append, Bytes.splitAt_ended h10, List.flatMap_cons, lexLine_comment]
  rfl

theorem textTokens_last_comment {remark : Bytes} (hremark : 10 ∉ remark) :
    textTokens (59 :: remark) = [] := by
  have h10 : 10 ∉ 59 :: remark := by simpa using hremark
  rw [textTokens, Bytes.splitAt_of_not_mem h10, List.flatMap_cons, lexLine_comment]
  rfl

theorem Gap.textTokens_append {gap : Bytes} (h : Gap gap) (b : Bytes) :
    textTokens (gap ++ b) = textTokens b := by
  induction h with
  | none => rfl
  | blank hc _ ih => rw [List.cons_append, textTokens_blank hc, ih]
  | comment hremark _ ih =>
      rw [List.cons_append, List.append_assoc, List.cons_append, textTokens_comment hremark, ih]

theorem Ending.textTokens_eq {b : Bytes} (h : Ending b) : textTokens b = [] := by
  cases h with
  | gap h => rw [← List.append_nil b, h.textTokens_append, textTokens_nil]
  | comment h hremark => rw [h.textTokens_append, textTokens_last_comment hremark]

/-! ### Tokens -/

/-- How a token is written. -/
def Token.spelling : Token → Bytes
  | .opening => [40]
  | .closing => [41]
  | .integer negative digits => if negative then 45 :: digits else digits
  | .name text => text
  | .illegal c => [c]

/-- Whether a token is a parenthesis, which no other token runs into. -/
def Token.isParenthesis : Token → Bool
  | .opening | .closing => true
  | _ => false

/-- Whether the spelling of a token is read as that token. -/
def Token.IsSpelled : Token → Prop
  | .opening | .closing => True
  | .integer _ digits => ∃ n, digits = Bytes.decimal n
  | .name text => isReadableName text = true
  | .illegal _ => False

theorem isSpelled_of_mem_tokens {f : Form} (hf : f.isReadable = true) :
    (∀ token ∈ f.tokens, token.IsSpelled) ∧ (∀ token ∈ f.tailTokens, token.IsSpelled) := by
  induction f with
  | int v =>
      constructor
      · intro token htoken
        rw [Form.tokens, List.mem_singleton] at htoken
        rw [htoken]
        exact ⟨_, rfl⟩
      · simp [Form.tailTokens, Token.IsSpelled]
  | symbol s =>
      constructor
      · intro token htoken
        rw [Form.tokens, List.mem_singleton] at htoken
        rw [htoken]
        exact hf
      · simp [Form.tailTokens, Token.IsSpelled]
  | nil => simp [Form.tokens, Form.tailTokens, Token.IsSpelled]
  | pair h t hh ht =>
      simp only [Form.isReadable, Bool.and_eq_true] at hf
      have htail : ∀ token ∈ h.tokens ++ t.tailTokens, token.IsSpelled := by
        intro token htoken
        rcases List.mem_append.mp htoken with htoken | htoken
        · exact (hh hf.1.1).1 token htoken
        · exact (ht hf.1.2).2 token htoken
      exact ⟨List.forall_mem_cons.mpr ⟨trivial, htail⟩, htail⟩
  | marker _ | absent => cases hf

/-- The spelling of a token has no byte that ends a token, unless it is a parenthesis. -/
theorem not_mem_spelling {token : Token} (h : token.IsSpelled) {c : UInt8}
    (hc : c ∈ token.spelling) : Line.isSeparator c = false ∨ c = 40 ∨ c = 41 := by
  cases token with
  | opening => exact .inr (.inl (List.mem_singleton.mp hc))
  | closing => exact .inr (.inr (List.mem_singleton.mp hc))
  | integer negative digits =>
      obtain ⟨n, rfl⟩ := h
      left
      cases negative with
      | false => exact not_isSeparator_of_isDigit (Bytes.isDigit_of_mem_decimal hc)
      | true =>
          rcases List.mem_cons.mp hc with rfl | hc
          · rfl
          · exact not_isSeparator_of_isDigit (Bytes.isDigit_of_mem_decimal hc)
  | name text => exact .inl (Form.not_isSeparator_of_mem_name h hc)
  | illegal _ => cases h

/-- The spelling of a token is cut off as that token, where the token ends behind it. -/
theorem lex_spelling {token : Token} (h : token.IsSpelled) {rest : Bytes}
    (hrest : token.isParenthesis = true ∨ EndsToken rest) :
    (lex (token.spelling ++ rest)).map (·.token) = token :: (lex rest).map (·.token) := by
  cases token with
  | opening => simp [Token.spelling]
  | closing => simp [Token.spelling]
  | integer negative digits =>
      obtain ⟨n, rfl⟩ := h
      have hends := hrest.resolve_left (by simp [Token.isParenthesis])
      cases negative with
      | false => simp [Token.spelling, Form.lex_decimal_append n hends]
      | true => simp [Token.spelling, Form.lex_minus_append n hends]
  | name text =>
      have hends := hrest.resolve_left (by simp [Token.isParenthesis])
      simp [Token.spelling, Form.lex_name_append h hends]
  | illegal _ => cases h

/-- If a token ends before a text, it ends before the first line of the text. -/
theorem endsToken_untilNul {b p : Bytes} {ps : List Bytes} (h : EndsToken b)
    (hb : Bytes.splitAt 10 b = p :: ps) : EndsToken (Line.untilNul p) := by
  cases b with
  | nil =>
      cases hb
      intro c r hcons
      cases hcons
  | cons d b =>
      have hd := h d b rfl
      by_cases h10 : d = 10
      · rw [h10, Bytes.splitAt_sep] at hb
        cases hb
        intro c r hcons
        cases hcons
      · obtain ⟨q, qs, hq⟩ := Bytes.exists_splitAt_eq 10 b
        have hsplit := Bytes.splitAt_append (w := [d]) (by simpa using Ne.symm h10) hq
        rw [List.singleton_append, hb] at hsplit
        cases hsplit
        intro c r hcons
        rw [Line.untilNul, List.singleton_append, List.takeWhile_cons] at hcons
        split at hcons
        · cases hcons
          exact hd
        · cases hcons

theorem textTokens_spelling {token : Token} (h : token.IsSpelled) {b : Bytes}
    (hb : token.isParenthesis = true ∨ EndsToken b) :
    textTokens (token.spelling ++ b) = token :: textTokens b := by
  have hbytes (c : UInt8) (hc : c ∈ token.spelling) : c ≠ 10 ∧ c ≠ 0 := by
    rcases not_mem_spelling h hc with hc | rfl | rfl
    · obtain ⟨-, -, -, -, h39, h0⟩ := of_not_isSeparator hc
      exact ⟨fun h10 => h39 (.inr h10), h0⟩
    · decide
    · decide
  apply textTokens_append [token] (fun hc => (hbytes 10 hc).1 rfl) (fun hc => (hbytes 0 hc).2 rfl)
  intro p ps hp
  apply lex_spelling h
  exact hb.imp_right fun hb => endsToken_untilNul hb hp

/-! ### Layouts -/

/-- A text that starts with the first of the tokens and has the others behind it. Between two of
them is a gap, which may be nothing if one of the two is a parenthesis. -/
inductive Layout : List Token → Bytes → Prop
  | last (token : Token) {ending : Bytes} (h : Ending ending) :
      Layout [token] (token.spelling ++ ending)
  | next {token token' : Token} {tokens : List Token} {gap text : Bytes} (hgap : Gap gap)
      (hapart : gap = [] → token.isParenthesis = true ∨ token'.isParenthesis = true)
      (h : Layout (token' :: tokens) text) : Layout (token :: token' :: tokens)
        (token.spelling ++ (gap ++ text))

theorem Gap.endsToken {gap : Bytes} (h : Gap gap) (hne : gap ≠ []) (b : Bytes) :
    EndsToken (gap ++ b) := by
  rintro c r hcons
  cases h with
  | none => exact absurd rfl hne
  | blank hc _ =>
      cases hcons
      rcases hc with rfl | rfl | rfl
      · rfl
      · rfl
      · rfl
  | comment _ _ =>
      cases hcons
      rfl

theorem Ending.endsToken {b : Bytes} (h : Ending b) : EndsToken b := by
  cases h with
  | gap h =>
      by_cases hne : b = []
      · rintro c r hcons
        rw [hne] at hcons
        cases hcons
      · simpa using h.endsToken hne []
  | @comment b remark h hremark =>
      by_cases hne : b = []
      · rintro c r hcons
        rw [hne] at hcons
        cases hcons
        rfl
      · exact h.endsToken hne _

/-- A layout that starts with a parenthesis ends the token before it. -/
theorem Layout.endsToken {token : Token} {tokens : List Token} {text : Bytes}
    (h : Layout (token :: tokens) text) (hparenthesis : token.isParenthesis = true) :
    EndsToken text := by
  have hstart (b : Bytes) : EndsToken (token.spelling ++ b) := by
    rintro c r hcons
    cases token with
    | opening | closing =>
        cases hcons
        rfl
    | _ => cases hparenthesis
  cases h with
  | last _ _ => exact hstart _
  | next _ _ _ => exact hstart _

theorem Layout.textTokens_eq {tokens : List Token} {text : Bytes} (h : Layout tokens text)
    (hspelled : ∀ token ∈ tokens, token.IsSpelled) : textTokens text = tokens := by
  induction h with
  | last token h =>
      have htoken := hspelled token List.mem_cons_self
      rw [textTokens_spelling htoken (.inr h.endsToken), h.textTokens_eq]
  | @next token token' tokens gap text hgap hapart h ih =>
      obtain ⟨htoken, hmore⟩ := List.forall_mem_cons.mp hspelled
      have hends : token.isParenthesis = true ∨ EndsToken (gap ++ text) := by
        by_cases hne : gap = []
        · rw [hne]
          exact (hapart hne).imp_right h.endsToken
        · exact .inr (hgap.endsToken hne text)
      rw [textTokens_spelling htoken hends, hgap.textTokens_append, ih hmore]

end Grammar

/-- A text that lays out tokens: there may be a gap before the first one. -/
def LaysOut (text : Bytes) (tokens : List Grammar.Token) : Prop :=
  ∃ lead body, text = lead ++ body ∧ Grammar.Gap lead ∧ Grammar.Layout tokens body

/-- Forms are printed without the numbers of their symbols. -/
theorem Form.textOnto_anonymous (x : Form) :
    (∀ acc, x.anonymous.textOnto acc = x.textOnto acc) ∧
      ∀ acc, x.anonymous.tailOnto acc = x.tailOnto acc := by
  induction x with
  | pair a b ha hb =>
      constructor
      · intro acc
        rw [anonymous, textOnto, textOnto, ha.1, hb.2]
      · intro acc
        rw [anonymous, tailOnto, tailOnto, ha.1, hb.2]
  | _ => exact ⟨fun _ => rfl, fun _ => rfl⟩

theorem Form.text_anonymous (x : Form) : x.anonymous.text = x.text := by
  rw [text, text, x.textOnto_anonymous.1]

theorem Form.fingerprint_anonymous (x : Form) : x.anonymous.fingerprint = x.fingerprint := by
  rw [fingerprint, fingerprint, x.text_anonymous]

/-- Every layout of a readable form within the usual limits reads as that form, and what is read has
its fingerprint. -/
theorem readText_of_laysOut {f : Form} (hf : f.isReadable = true) (hname : f.longestName ≤ 79)
    (hnesting : f.nesting ≤ 10000) {text : Bytes} (h : LaysOut text f.tokens) :
    ∃ x table, readText text = .ok (x, table) ∧ x.equal f = true ∧
      x.fingerprint = f.fingerprint := by
  obtain ⟨lead, body, rfl, hlead, hbody⟩ := h
  have htokens : Grammar.textTokens (lead ++ body) = f.tokens := by
    rw [hlead.textTokens_append, hbody.textTokens_eq (Grammar.isSpelled_of_mem_tokens hf).1]
  obtain ⟨x, table, hread, hequal⟩ := readText_of_tokens hf hname hnesting htokens
  exact ⟨x, table, hread, hequal, Form.apply_eq_of_equal Form.fingerprint_anonymous hequal⟩

/-- Comments with a NUL and a parenthesis in them stand before the form and between its two
elements, and another one ends the text. -/
theorem readText_of_laysOut_comments :
    let f : Form := .pair (.symbol ⟨[97], none⟩) (.pair (.int 1) .nil)
    ∃ x table, readText [59, 0, 40, 10, 9, 40, 97, 59, 0, 41, 10, 49, 41, 32, 59] = .ok (x, table) ∧
      x.equal f = true ∧ x.fingerprint = f.fingerprint := by
  intro f
  have hone : Bytes.decimal 1 = [49] := Bytes.decimal_of_lt (by decide)
  have hlead := Grammar.Gap.comment (show (10 : UInt8) ∉ [0, 40] by decide)
    (Grammar.Gap.blank (.inr (.inl rfl)) Grammar.Gap.none)
  have hbetween := Grammar.Gap.comment (show (10 : UInt8) ∉ [0, 41] by decide) Grammar.Gap.none
  have hending := Grammar.Ending.comment (Grammar.Gap.blank (.inl rfl) Grammar.Gap.none)
    (show (10 : UInt8) ∉ [] by decide)
  have hbody : Grammar.Layout f.tokens _ :=
    .next .none (fun _ => .inl rfl) (.next hbetween (fun h => by cases h)
      (.next .none (fun _ => .inr rfl) (.last .closing hending)))
  apply readText_of_laysOut (by decide) (by decide) (by decide)
  refine ⟨_, _, ?_, hlead, hbody⟩
  change _ = [59, 0, 40, 10, 9, 40, 97, 59, 0, 41, 10] ++ (Bytes.decimal 1 ++ [41, 32, 59])
  rw [hone]
  rfl

end FormReader
