import FormReader.Text.Utf8
import Mathlib.Data.Nat.Init
import Mathlib.Logic.Basic
import Mathlib.Tactic.SplitIfs

/-!
# Well-formed UTF-8

The bytes of a code point are taken apart to that code point, and a sequence that is taken apart is
the bytes of a code point that is no surrogate. So text is well formed just if it is the UTF-8 of a
string, and then its runes are the characters of the string.
-/

namespace FormReader.Text

/-! ### Bytes as numbers -/

theorem between_iff {low high a : UInt8} :
    (low ≤ a && a ≤ high) = true ↔ low.toNat ≤ a.toNat ∧ a.toNat ≤ high.toNat := by
  simp [UInt8.le_iff_toNat_le]

theorem isContinuation_iff {b : UInt8} :
    isContinuation b = true ↔ 0x80 ≤ b.toNat ∧ b.toNat ≤ 0xbf := between_iff

theorem followsThree_iff {a b : UInt8} :
    followsThree a b = true ↔
      isContinuation b = true ∧ (a.toNat = 0xe0 → 0xa0 ≤ b.toNat) ∧
        (a.toNat = 0xed → b.toNat ≤ 0x9f) := by
  simp [followsThree, UInt8.le_iff_toNat_le, ← UInt8.toNat_inj, and_assoc, ← imp_iff_not_or]

theorem followsFour_iff {a b : UInt8} :
    followsFour a b = true ↔
      isContinuation b = true ∧ (a.toNat = 0xf0 → 0x90 ≤ b.toNat) ∧
        (a.toNat = 0xf4 → b.toNat ≤ 0x8f) := by
  simp [followsFour, UInt8.le_iff_toNat_le, ← UInt8.toNat_inj, and_assoc, ← imp_iff_not_or]

theorem eq_toUInt8 {a : UInt8} {n : Nat} (h : a.toNat = n) : a = n.toUInt8 := by
  rw [← h]
  exact UInt8.ofNat_toNat.symm

/-! ### Sequences -/

section

variable {a b c d : UInt8} {n : Nat}

theorem encode_two (ha : 0xc2 ≤ a.toNat ∧ a.toNat ≤ 0xdf) (hb : isContinuation b = true)
    (hn : (a.toNat - 0xc0) * 64 + payload b = n) : n.isValidChar ∧ encode n = [a, b] := by
  rw [isContinuation_iff] at hb
  rw [payload] at hn
  refine ⟨.inl (by omega), ?_⟩
  rw [encode, if_neg (by omega), if_pos (by omega), ← @eq_toUInt8 a _ (by omega),
    ← @eq_toUInt8 b _ (by omega)]

theorem encode_three (ha : 0xe0 ≤ a.toNat ∧ a.toNat ≤ 0xef) (hb : followsThree a b = true)
    (hc : isContinuation c = true) (hn : (a.toNat - 0xe0) * 4096 + payload b * 64 + payload c = n) :
    n.isValidChar ∧ encode n = [a, b, c] := by
  rw [followsThree_iff, isContinuation_iff] at hb
  rw [isContinuation_iff] at hc
  rw [payload, payload] at hn
  refine ⟨by rw [Nat.isValidChar]; omega, ?_⟩
  rw [encode, if_neg (by omega), if_neg (by omega), if_pos (by omega), ← @eq_toUInt8 a _ (by omega),
    ← @eq_toUInt8 b _ (by omega), ← @eq_toUInt8 c _ (by omega)]

theorem encode_four (ha : 0xf0 ≤ a.toNat ∧ a.toNat ≤ 0xf4) (hb : followsFour a b = true)
    (hc : isContinuation c = true) (hd : isContinuation d = true)
    (hn : (a.toNat - 0xf0) * 262144 + payload b * 4096 + payload c * 64 + payload d = n) :
    n.isValidChar ∧ encode n = [a, b, c, d] := by
  rw [followsFour_iff, isContinuation_iff] at hb
  rw [isContinuation_iff] at hc hd
  rw [payload, payload, payload] at hn
  refine ⟨by rw [Nat.isValidChar]; omega, ?_⟩
  rw [encode, if_neg (by omega), if_neg (by omega), if_neg (by omega), ← @eq_toUInt8 a _ (by omega),
    ← @eq_toUInt8 b _ (by omega), ← @eq_toUInt8 c _ (by omega), ← @eq_toUInt8 d _ (by omega)]

theorem sequence?_two (ha : (0xc2 ≤ a && a ≤ 0xdf) = true) (hb : isContinuation b = true)
    (more : Bytes) : sequence? a (b :: more) = some ((a.toNat - 0xc0) * 64 + payload b, more) := by
  unfold sequence?
  rw [if_neg (by grind), if_pos ha]
  exact if_pos hb

theorem sequence?_three (ha : (0xe0 ≤ a && a ≤ 0xef) = true) (hb : followsThree a b = true)
    (hc : isContinuation c = true) (more : Bytes) :
    sequence? a (b :: c :: more) =
      some ((a.toNat - 0xe0) * 4096 + payload b * 64 + payload c, more) := by
  unfold sequence?
  rw [if_neg (by grind), if_neg (by grind), if_pos ha]
  exact if_pos (Bool.and_eq_true_iff.mpr ⟨hb, hc⟩)

theorem sequence?_four (ha : (0xf0 ≤ a && a ≤ 0xf4) = true) (hb : followsFour a b = true)
    (hc : isContinuation c = true) (hd : isContinuation d = true) (more : Bytes) :
    sequence? a (b :: c :: d :: more) =
      some ((a.toNat - 0xf0) * 262144 + payload b * 4096 + payload c * 64 + payload d, more) := by
  unfold sequence?
  rw [if_neg (by grind), if_neg (by grind), if_neg (by grind), if_pos ha]
  exact if_pos (by rw [hb, hc, hd]; rfl)

end

/-- A sequence that is taken apart is the bytes of a code point. -/
theorem eq_encode_of_sequence? {a : UInt8} {rest more : Bytes} {n : Nat}
    (h : sequence? a rest = some (n, more)) : n.isValidChar ∧ a :: rest = encode n ++ more := by
  unfold sequence? at h
  split at h
  · next hone =>
      have hone : a.toNat < 0x80 := UInt8.lt_iff_toNat_lt.mp hone
      cases h
      refine ⟨.inl (Nat.lt_trans hone (by decide)), ?_⟩
      rw [encode, if_pos hone, ← eq_toUInt8 rfl]
      rfl
  split at h
  · next htwo =>
      split at h
      · split at h
        · next hb =>
            cases h
            obtain ⟨hvalid, hbytes⟩ := encode_two (between_iff.mp htwo) hb rfl
            exact ⟨hvalid, by rw [hbytes]; rfl⟩
        · cases h
      · cases h
  split at h
  · next hthree =>
      split at h
      · split at h
        · next hfollow =>
            obtain ⟨hb, hc⟩ := Bool.and_eq_true_iff.mp hfollow
            cases h
            obtain ⟨hvalid, hbytes⟩ := encode_three (between_iff.mp hthree) hb hc rfl
            exact ⟨hvalid, by rw [hbytes]; rfl⟩
        · cases h
      · cases h
  split at h
  · next hfour =>
      split at h
      · split at h
        · next hfollow =>
            simp only [Bool.and_eq_true] at hfollow
            obtain ⟨⟨hb, hc⟩, hd⟩ := hfollow
            cases h
            obtain ⟨hvalid, hbytes⟩ := encode_four (between_iff.mp hfour) hb hc hd rfl
            exact ⟨hvalid, by rw [hbytes]; rfl⟩
        · cases h
      · cases h
  · cases h

/-- The bytes of a character are taken apart to its code point, whatever follows. -/
theorem sequence?_encode {n : Nat} (hn : n.isValidChar) (more : Bytes) :
    ∃ a rest, encode n ++ more = a :: rest ∧ sequence? a rest = some (n, more) := by
  -- Only the numbers of the bytes count from here on, so each byte is put away behind a name once
  -- its number is known.
  have hbyte {m : Nat} (h : m < 256) : m.toUInt8.toNat = m := UInt8.toNat_ofNat_of_lt' h
  rw [Nat.isValidChar] at hn
  rw [encode]
  split_ifs with hone htwo hthree
  · have ha := hbyte (show n < 256 by omega)
    refine ⟨n.toUInt8, more, rfl, ?_⟩
    generalize n.toUInt8 = a at ha ⊢
    unfold sequence?
    rw [if_pos (UInt8.lt_iff_toNat_lt.mpr (ha ▸ hone)), ha]
  · have ha := hbyte (show 0xc0 + n / 64 < 256 by omega)
    have hb := hbyte (show 0x80 + n % 64 < 256 by omega)
    refine ⟨_, _ :: more, rfl, ?_⟩
    generalize (0xc0 + n / 64).toUInt8 = a at ha ⊢
    generalize (0x80 + n % 64).toUInt8 = b at hb ⊢
    have hlead : 0xc2 ≤ a.toNat ∧ a.toNat ≤ 0xdf := by omega
    rw [sequence?_two (between_iff.mpr hlead) (isContinuation_iff.mpr (by omega)), payload, ha, hb]
    congr 2
    omega
  · have ha := hbyte (show 0xe0 + n / 4096 < 256 by omega)
    have hb := hbyte (show 0x80 + n / 64 % 64 < 256 by omega)
    have hc := hbyte (show 0x80 + n % 64 < 256 by omega)
    refine ⟨_, _ :: _ :: more, rfl, ?_⟩
    generalize (0xe0 + n / 4096).toUInt8 = a at ha ⊢
    generalize (0x80 + n / 64 % 64).toUInt8 = b at hb ⊢
    generalize (0x80 + n % 64).toUInt8 = c at hc ⊢
    have hlead : 0xe0 ≤ a.toNat ∧ a.toNat ≤ 0xef := by omega
    have hfollow : followsThree a b = true := by
      rw [followsThree_iff, isContinuation_iff]
      omega
    rw [sequence?_three (between_iff.mpr hlead) hfollow (isContinuation_iff.mpr (by omega)),
      payload, payload, ha, hb, hc]
    congr 2
    omega
  · have ha := hbyte (show 0xf0 + n / 262144 < 256 by omega)
    have hb := hbyte (show 0x80 + n / 4096 % 64 < 256 by omega)
    have hc := hbyte (show 0x80 + n / 64 % 64 < 256 by omega)
    have hd := hbyte (show 0x80 + n % 64 < 256 by omega)
    refine ⟨_, _ :: _ :: _ :: more, rfl, ?_⟩
    generalize (0xf0 + n / 262144).toUInt8 = a at ha ⊢
    generalize (0x80 + n / 4096 % 64).toUInt8 = b at hb ⊢
    generalize (0x80 + n / 64 % 64).toUInt8 = c at hc ⊢
    generalize (0x80 + n % 64).toUInt8 = d at hd ⊢
    have hlead : 0xf0 ≤ a.toNat ∧ a.toNat ≤ 0xf4 := by omega
    have hfollow : followsFour a b = true := by
      rw [followsFour_iff, isContinuation_iff]
      omega
    rw [sequence?_four (between_iff.mpr hlead) hfollow (isContinuation_iff.mpr (by omega))
      (isContinuation_iff.mpr (by omega)), payload, payload, payload, ha, hb, hc, hd]
    congr 2
    omega

/-- The bytes of a character are those of its code point. -/
theorem encode_toNat (c : Char) : encode c.toNat = String.utf8EncodeChar c := by
  have hvalid : c.toNat.isValidChar := c.valid
  rw [Nat.isValidChar] at hvalid
  rw [encode, String.utf8EncodeChar, ← Char.toNat]
  simp only [Nat.le_iff_lt_add_one, Nat.reduceAdd]
  split_ifs with hone htwo hthree
  · rfl
  · rw [Nat.mod_eq_of_lt (show c.toNat / 64 < 32 by omega), Nat.add_comm 0xc0, Nat.add_comm 0x80]
  · rw [Nat.mod_eq_of_lt (show c.toNat / 4096 < 16 by omega), Nat.add_comm 0xe0, Nat.add_comm 0x80,
      Nat.add_comm 0x80]
  · rw [Nat.mod_eq_of_lt (show c.toNat / 262144 < 8 by omega), Nat.add_comm 0xf0, Nat.add_comm 0x80,
      Nat.add_comm 0x80, Nat.add_comm 0x80]

/-! ### Texts -/

theorem runesOnto_of_some {a : UInt8} {rest r : Bytes} {n : Nat}
    (h : sequence? a rest = some (n, r)) (acc : List Rune) :
    runesOnto acc (a :: rest) = runesOnto (.code n :: acc) r := by
  rw [runesOnto]
  split
  · next he =>
      rw [h] at he
      cases he
      rfl
  · next he =>
      rw [h] at he
      cases he

theorem runesOnto_of_none {a : UInt8} {rest : Bytes} (h : sequence? a rest = none)
    (acc : List Rune) : runesOnto acc (a :: rest) = runesOnto (.stray a :: acc) rest := by
  rw [runesOnto]
  split
  · next he =>
      rw [h] at he
      cases he
  · rfl

theorem runesOnto_eq (acc : List Rune) (b : Bytes) :
    runesOnto acc b = (runes b).reverse ++ acc := by
  rw [runes, List.reverse_reverse]
  induction hlength : b.length using Nat.strong_induction_on generalizing acc b with
  | _ length ih =>
      subst hlength
      cases b with
      | nil => rw [runesOnto, runesOnto, List.nil_append]
      | cons a rest =>
          cases h : sequence? a rest with
          | some p =>
              obtain ⟨n, r⟩ := p
              have hlt : r.length < (a :: rest).length := Nat.lt_succ_of_le (length_of_sequence? h)
              rw [runesOnto_of_some h, runesOnto_of_some h, ih _ hlt _ r rfl,
                ih _ hlt [.code n] r rfl]
              simp
          | none =>
              have hlt : rest.length < (a :: rest).length := Nat.lt_succ_self _
              rw [runesOnto_of_none h, runesOnto_of_none h, ih _ hlt _ rest rfl,
                ih _ hlt [.stray a] rest rfl]
              simp

theorem runes_of_some {a : UInt8} {rest r : Bytes} {n : Nat} (h : sequence? a rest = some (n, r)) :
    runes (a :: rest) = .code n :: runes r := by
  rw [runes, runesOnto_of_some h, runesOnto_eq]
  simp

theorem runes_of_none {a : UInt8} {rest : Bytes} (h : sequence? a rest = none) :
    runes (a :: rest) = .stray a :: runes rest := by
  rw [runes, runesOnto_of_none h, runesOnto_eq]
  simp

/-- The runes of a string are its characters. -/
theorem runes_ofString (s : String) :
    runes (Bytes.ofString s) = s.toList.map fun c => .code c.toNat := by
  rw [Bytes.ofString]
  induction s.toList with
  | nil => rw [List.flatMap_nil, runes, runesOnto]; rfl
  | cons c cs ih =>
      obtain ⟨a, rest, hbytes, hsequence⟩ :=
        sequence?_encode c.valid (cs.flatMap String.utf8EncodeChar)
      change encode c.toNat ++ _ = _ at hbytes
      rw [List.flatMap_cons, ← encode_toNat, hbytes, runes_of_some hsequence, ih]
      rfl

/-- Well-formed text is taken apart into characters. -/
theorem exists_characters {b : Bytes} (h : isUtf8 b = true) :
    ∃ cs : List Char, b = cs.flatMap String.utf8EncodeChar := by
  induction hlength : b.length using Nat.strong_induction_on generalizing b with
  | _ length ih =>
      subst hlength
      cases b with
      | nil => exact ⟨[], rfl⟩
      | cons a rest =>
          cases hsequence : sequence? a rest with
          | some p =>
              obtain ⟨n, r⟩ := p
              obtain ⟨hvalid, hbytes⟩ := eq_encode_of_sequence? hsequence
              rw [isUtf8, runes_of_some hsequence, List.all_cons, Bool.and_eq_true] at h
              obtain ⟨cs, rfl⟩ :=
                ih r.length (Nat.lt_succ_of_le (length_of_sequence? hsequence)) h.2 rfl
              have hcode : (Char.ofNatAux n hvalid).toNat = n := rfl
              refine ⟨Char.ofNatAux n hvalid :: cs, ?_⟩
              rw [hbytes, List.flatMap_cons, ← encode_toNat, hcode]
          | none =>
              rw [isUtf8, runes_of_none hsequence] at h
              cases h

/-- Text is well formed just if it is the UTF-8 of a string. -/
theorem isUtf8_iff (b : Bytes) : isUtf8 b = true ↔ ∃ s : String, b = Bytes.ofString s := by
  constructor
  · intro h
    obtain ⟨cs, rfl⟩ := exists_characters h
    exact ⟨String.ofList cs, by rw [Bytes.ofString, String.toList_ofList]⟩
  · rintro ⟨s, rfl⟩
    rw [isUtf8, runes_ofString]
    simp

end FormReader.Text
