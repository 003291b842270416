import FormReader.LineEditor
import FormReader.Proofs.Interning
import FormReader.Proofs.Utf8
import Mathlib.Data.List.DropRight

/-!
# Completion is exact

A line is completed to all the names that start with its last word, and to nothing else.

## Implementation notes

The end of the word is found by taking runes off the line from behind, whatever its bytes are. All
bytes of a rune that takes up more than one are above ASCII, and so is a stray byte. So no separator
is passed over inside a rune, and the rune that ends the word is the last separator of the line.
-/

namespace FormReader

namespace Text

variable {c : UInt8} {before : Bytes} {n : Nat}

/-! ### The last rune -/

/-- No byte of a code point above ASCII is ASCII. -/
theorem le_of_mem_encode (hn : 0x80 ≤ n) (hvalid : n.isValidChar) {b : UInt8} (hb : b ∈ encode n) :
    0x80 ≤ b := by
  have hbyte {m : Nat} (hm : 0x80 ≤ m ∧ m < 0x100) : (0x80 : UInt8) ≤ m.toUInt8 := by
    rw [UInt8.le_iff_toNat_le, Nat.toUInt8_eq, UInt8.toNat_ofNat_of_lt' hm.2]
    exact hm.1
  rw [Nat.isValidChar] at hvalid
  rw [encode, if_neg (Nat.not_lt.mpr hn)] at hb
  split_ifs at hb with htwo hthree
  · simp only [List.mem_cons, List.not_mem_nil, or_false] at hb
    rcases hb with rfl | rfl
    all_goals exact hbyte (by omega)
  · simp only [List.mem_cons, List.not_mem_nil, or_false] at hb
    rcases hb with rfl | rfl | rfl
    all_goals exact hbyte (by omega)
  · simp only [List.mem_cons, List.not_mem_nil, or_false] at hb
    rcases hb with rfl | rfl | rfl | rfl
    all_goals exact hbyte (by omega)

theorem eq_encode_of_codePoint? {b : Bytes} (h : codePoint? b = some n) :
    n.isValidChar ∧ b = encode n := by
  cases b with
  | nil => cases h
  | cons a rest =>
      rw [codePoint?] at h
      split at h
      · next hsequence =>
          cases h
          obtain ⟨hvalid, hbytes⟩ := eq_encode_of_sequence? hsequence
          exact ⟨hvalid, by rw [hbytes, List.append_nil]⟩
      · cases h

/-- A text that ends above ASCII is that of no ASCII code point, and has no ASCII byte if it is that
of any. -/
theorem above_of_codePoint? {b : Bytes} (h : codePoint? b = some n) (hc : c ∈ b)
    (habove : ¬c < 0x80) : 0x80 ≤ n ∧ ∀ d ∈ b, 0x80 ≤ d := by
  obtain ⟨hvalid, rfl⟩ := eq_encode_of_codePoint? h
  have hn : 0x80 ≤ n := by
    by_contra hlt
    rw [encode, if_pos (Nat.lt_of_not_le hlt), List.mem_singleton] at hc
    rw [hc, UInt8.lt_iff_toNat_lt, Nat.toUInt8_eq,
      UInt8.toNat_ofNat_of_lt' (show n < 256 by omega)] at habove
    exact habove (Nat.lt_of_not_le hlt)
  exact ⟨hn, fun d hd => le_of_mem_encode hn hvalid hd⟩

theorem lastRune_of_ascii (hc : c < 0x80) (before : Bytes) :
    lastRune c before = (.code c.toNat, before) := by
  rw [lastRune, if_pos hc]

/-- A rune above ASCII: a code point that is not ASCII, or a stray byte. -/
def Rune.IsAbove : Rune → Prop
  | .code n => 0x80 ≤ n
  | .stray _ => True

/-- A text that ends above ASCII has a rune above ASCII at its end, and with it only bytes above
ASCII are taken off. -/
theorem lastRune_of_above (hc : ¬c < 0x80) (before : Bytes) :
    (lastRune c before).1.IsAbove ∧ ∃ passed, before = passed ++ (lastRune c before).2 ∧
      ∀ d ∈ passed, 0x80 ≤ d := by
  rw [lastRune, if_neg hc]
  split
  · next n h =>
      obtain ⟨hn, hall⟩ := above_of_codePoint? h (by simp) hc
      refine ⟨hn, before.take (reach before), (List.take_append_drop _ _).symm, ?_⟩
      intro d hd
      exact hall d (by simp [hd])
  · exact ⟨trivial, [], rfl, by simp⟩

/-! ### The last rune with a property -/

/-- A property that a rune has if it is an ASCII byte of a kind, and no other rune has. -/
structure IsOfAscii (p : Rune → Bool) (kind : UInt8 → Bool) : Prop where
  ascii : ∀ c < 0x80, p (.code c.toNat) = kind c
  above : ∀ r : Rune, r.IsAbove → p r = false
  kind_above : ∀ c, ¬c < 0x80 → kind c = false

section

variable {p : Rune → Bool} {kind : UInt8 → Bool}

theorem IsOfAscii.of_true (h : IsOfAscii p kind) (hp : p (lastRune c before).1 = true) :
    kind c = true ∧ (lastRune c before).2 = before := by
  by_cases hc : c < 0x80
  · rw [lastRune_of_ascii hc] at hp ⊢
    exact ⟨(h.ascii c hc).symm.trans hp, rfl⟩
  · rw [h.above _ (lastRune_of_above hc before).1] at hp
    cases hp

/-- With a rune that lacks the property no byte of the kind is taken off. -/
theorem IsOfAscii.of_false (h : IsOfAscii p kind) (hp : ¬p (lastRune c before).1 = true) :
    (c :: before).dropWhile (!kind ·) = (lastRune c before).2.dropWhile (!kind ·) := by
  by_cases hc : c < 0x80
  · rw [lastRune_of_ascii hc] at hp ⊢
    rw [h.ascii c hc, Bool.not_eq_true] at hp
    rw [List.dropWhile_cons_of_pos (by rw [hp]; rfl)]
  · obtain ⟨-, passed, hbefore, hpassed⟩ := lastRune_of_above hc before
    have hall : ∀ d ∈ c :: passed, (!kind d) = true := by
      intro d hd
      have habove : ¬d < 0x80 := by
        rcases List.mem_cons.mp hd with rfl | hd
        · exact hc
        · exact UInt8.not_lt.mpr (hpassed d hd)
      rw [h.kind_above d habove]
      rfl
    conv_lhs => rw [hbefore, ← List.cons_append, List.dropWhile_append_of_pos hall]

/-- The last rune that is an ASCII byte of a kind is the last byte of that kind, whatever the bytes
around it are. -/
theorem lastIndexFrom?_eq (h : IsOfAscii p kind) (back : Bytes) :
    lastIndexFrom? p back = (back.dropWhile (!kind ·)).tail?.map List.length := by
  fun_induction lastIndexFrom? p back with
  | case1 => rfl
  | case2 c before last hp =>
      obtain ⟨hkind, hrest⟩ := h.of_true hp
      rw [List.dropWhile_cons_of_neg (by simp [hkind]), List.tail?_cons, Option.map_some]
      exact congrArg (some ·.length) hrest
  | case3 c before last hp ih => rw [ih, h.of_false hp]

end

end Text

namespace Completion

open Line (isSeparator)

/-! ### The last word -/

theorem endsWord_isOfAscii : Text.IsOfAscii endsWord isSeparator where
  ascii c hc := by
    have hbyte : c.toNat.toUInt8 = c := by simp
    have hlt : c.toNat < 0x80 := UInt8.lt_iff_toNat_lt.mp hc
    rw [endsWord, hbyte, decide_eq_true hlt, Bool.true_and]
  above r hr := by
    cases r with
    | code n => rw [endsWord, decide_eq_false (Nat.not_lt.mpr hr), Bool.false_and]
    | stray b => rfl
  kind_above c hc := by
    grind [isSeparator]

/-- The last word starts behind the last separator. -/
theorem wordStart_eq (line : Bytes) :
    wordStart line = (line.rdropWhile (!isSeparator ·)).length := by
  rw [wordStart, Text.lastIndex?, Text.lastIndexFrom?_eq endsWord_isOfAscii, List.rdropWhile,
    List.length_reverse]
  cases line.reverse.dropWhile (!isSeparator ·) with
  | nil => rfl
  | cons c before => rfl

theorem lastWord_eq (line : Bytes) : lastWord line = line.rtakeWhile (!isSeparator ·) := by
  calc lastWord line
      = (line.rdropWhile (!isSeparator ·) ++ line.rtakeWhile (!isSeparator ·)).drop
        (wordStart line) := by
        rw [List.rdropWhile_append_rtakeWhile, lastWord]
    _ = line.rtakeWhile (!isSeparator ·) := List.drop_left' (wordStart_eq line).symm

theorem beforeLastWord_append_lastWord (line : Bytes) :
    beforeLastWord line ++ lastWord line = line :=
  List.take_append_drop _ _

/-- A word is the last one of a line if it is the longest end of the line without separators. -/
structure IsLastWord (line word : Bytes) : Prop where
  suffix : word <:+ line
  unseparated : ∀ c ∈ word, isSeparator c = false
  longest : ∀ w, w <:+ line → (∀ c ∈ w, isSeparator c = false) → w <:+ word

theorem isLastWord_lastWord (line : Bytes) : IsLastWord line (lastWord line) where
  suffix := List.drop_suffix _ _
  unseparated c hc := by
    rw [lastWord_eq] at hc
    simpa using List.mem_rtakeWhile_imp hc
  longest w hsuffix hw := by
    obtain ⟨more, hmore⟩ := List.reverse_prefix.mpr hsuffix
    have hall : ∀ c ∈ w.reverse, (!isSeparator c) = true := by
      intro c hc
      rw [hw c (List.mem_reverse.mp hc)]
      rfl
    rw [lastWord_eq, List.rtakeWhile, ← hmore, List.takeWhile_append_of_pos hall,
      ← List.reverse_prefix, List.reverse_reverse]
    exact List.prefix_append _ _

/-! ### The candidates -/

section

variable {table : SymbolTable} {line : Bytes}

theorem candidates_of_nil (h : lastWord line = []) : candidates (some table) line = [] := by
  rw [candidates, h]
  rfl

theorem candidates_of_ne_nil (h : lastWord line ≠ []) :
    candidates (some table) line =
      (table.sorted.filter fun name => (lastWord line).isPrefixOf name).map
        (beforeLastWord line ++ ·) := by
  rw [candidates]
  exact if_neg (by simpa using h)

theorem mem_candidates (h : lastWord line ≠ []) {x : Bytes} :
    x ∈ candidates (some table) line ↔ ∃ s, x = line ++ s ∧ lastWord line ++ s ∈ table.names := by
  rw [candidates_of_ne_nil h]
  simp only [List.mem_map, List.mem_filter, SymbolTable.mem_sorted, List.isPrefixOf_iff_prefix]
  constructor
  · rintro ⟨name, ⟨hname, s, rfl⟩, rfl⟩
    refine ⟨s, ?_, hname⟩
    rw [← List.append_assoc, beforeLastWord_append_lastWord]
  · rintro ⟨s, rfl, hname⟩
    refine ⟨lastWord line ++ s, ⟨hname, List.prefix_append _ _⟩, ?_⟩
    rw [← List.append_assoc, beforeLastWord_append_lastWord]

theorem pairwise_candidates (hdistinct : table.names.Nodup) (h : lastWord line ≠ []) :
    (candidates (some table) line).Pairwise (· < ·) := by
  rw [candidates_of_ne_nil h, List.pairwise_map]
  have hsorted :=
    (SymbolTable.pairwise_sorted hdistinct).filter fun name => (lastWord line).isPrefixOf name
  exact hsorted.imp fun hlt => List.append_left_lt hlt

end

/-- Completion is exact, whatever the bytes of a line are: with no word at its end nothing is
offered, and otherwise the line with every rest that makes its last word a name of the table, in
strictly increasing order. -/
theorem candidates_exact {table : SymbolTable} (hdistinct : table.names.Nodup) (line : Bytes) :
    ∃ word, IsLastWord line word ∧
      (word = [] → candidates (some table) line = []) ∧
      (word ≠ [] → (candidates (some table) line).Pairwise (· < ·) ∧
        ∀ x, x ∈ candidates (some table) line ↔ ∃ s, x = line ++ s ∧ word ++ s ∈ table.names) := by
  refine ⟨lastWord line, isLastWord_lastWord line, candidates_of_nil, ?_⟩
  intro hne
  exact ⟨pairwise_candidates hdistinct hne, fun x => mem_candidates hne⟩

/-- A line that ends inside the bytes of a character is completed to the names that start with
them. -/
theorem candidates_exact_inside_character :
    let table : SymbolTable := { names := ["日本", "def", "日曜"] }
    let line : Bytes := [40, 0xe6, 0x97]
    table.names.Nodup ∧ IsLastWord line [0xe6, 0x97] ∧
      (candidates (some table) line).Pairwise (· < ·) ∧
      ∀ x, x ∈ candidates (some table) line ↔ x = "(日本" ∨ x = "(日曜" := by
  intro table line
  have hdistinct : table.names.Nodup := by decide +kernel
  obtain ⟨word, hword, -, hoffered⟩ := candidates_exact hdistinct line
  have hle : [0xe6, 0x97] <:+ word := hword.longest _ (by decide) (by decide +kernel)
  have hge : word <:+ [0xe6, 0x97] := by
    rcases List.suffix_cons_iff.mp hword.suffix with rfl | h
    · exact absurd (hword.unseparated 40 List.mem_cons_self) (by decide)
    · exact h
  obtain rfl : [0xe6, 0x97] = word := hle.eq_of_length_le hge.length_le
  obtain ⟨hordered, hmem⟩ := hoffered (by decide)
  refine ⟨hdistinct, hword, hordered, fun x => (hmem x).trans ?_⟩
  constructor
  · rintro ⟨s, rfl, hs⟩
    have hnames : [0xe6, 0x97] ++ s ∈ (["日本", "def", "日曜"] : List Bytes) := hs
    simp only [List.mem_cons, List.not_mem_nil, or_false] at hnames
    rcases hnames with h | h | h
    · exact .inl ((congrArg (40 :: ·) h).trans (by decide))
    · have hhead : some 0xe6 = (Bytes.ofString "def").head? := congrArg List.head? h
      exact absurd hhead (by decide)
    · exact .inr ((congrArg (40 :: ·) h).trans (by decide))
  · rintro (rfl | rfl)
    · exact ⟨[0xa5, 0xe6, 0x9c, 0xac], by decide, by decide⟩
    · exact ⟨[0xa5, 0xe6, 0x9b, 0x9c], by decide, by decide⟩

end Completion

end FormReader
