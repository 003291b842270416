import FormReader.Packed.Stream
import Mathlib.Algebra.Order.Ring.Int
import Mathlib.Tactic.Ring

/-!
# Numbers and values on the wire

Big-endian numbers are read back modulo the width in which they were written, and integers in two's
complement are read back where the width holds them. From these it follows that each value, written
in its smallest form, is read back from a stream with nothing of what follows it.
-/

namespace FormReader.Packed

/-! ### Numbers -/

theorem bigEndian_succ (width n : Nat) :
    bigEndian (width + 1) n = (n / 256 ^ width).toUInt8 :: bigEndian width n := by
  simp [bigEndian, List.range_succ]

@[simp] theorem length_bigEndian (width n : Nat) : (bigEndian width n).length = width := by
  simp [bigEndian]

theorem ofBigEndian_cons (c : UInt8) (b : Bytes) :
    ofBigEndian (c :: b) = c.toNat * 256 ^ b.length + ofBigEndian b := by
  have hfold (b : Bytes) (acc : Nat) :
      b.foldl (fun n c => 256 * n + c.toNat) acc = acc * 256 ^ b.length + ofBigEndian b := by
    induction b generalizing acc with
    | nil => simp [ofBigEndian]
    | cons d b ih =>
        rw [ofBigEndian, List.foldl_cons, List.foldl_cons, ih, ih, List.length_cons]
        ring
  simpa [ofBigEndian] using hfold b c.toNat

theorem ofBigEndian_bigEndian (width n : Nat) :
    ofBigEndian (bigEndian width n) = n % 256 ^ width := by
  induction width with
  | zero => simp [bigEndian, ofBigEndian, Nat.mod_one]
  | succ width ih =>
      rw [bigEndian_succ, ofBigEndian_cons, length_bigEndian, ih, Nat.mod_pow_succ, Nat.toUInt8_eq,
        UInt8.toNat_ofNat']
      ring

theorem toNat_toUInt8 {n : Nat} (h : n < 256) : n.toUInt8.toNat = n := by
  rw [Nat.toUInt8_eq, UInt8.toNat_ofNat']
  exact Nat.mod_eq_of_lt h

/-- Two's complement of an integer in the lower or upper half of the residues. -/
theorem emod_of_half {i : Int} {m : Nat} (hlo : -(m : Int) ≤ i) (hhi : i < m) :
    i % (2 * m : Nat) = if 0 ≤ i then i else i + (2 * m : Nat) := by
  split
  · exact Int.emod_eq_of_lt (by assumption) (by omega)
  · rw [← Int.add_emod_right]
    exact Int.emod_eq_of_lt (by omega) (by omega)

/-- An integer that fits in a width is read back from its two's complement. -/
theorem signed_ofBigEndian {width : Nat} {i : Int} (hw : 0 < width)
    (hlo : -(2 ^ (8 * width - 1) : Nat) ≤ i) (hhi : i < (2 ^ (8 * width - 1) : Nat)) :
    signed width (ofBigEndian (signedBytes width i)) = i := by
  have hpow : 256 ^ width = 2 ^ (8 * width) := by
    rw [show 256 = 2 ^ 8 by rfl, ← Nat.pow_mul]
  have hdouble : 2 ^ (8 * width) = 2 * 2 ^ (8 * width - 1) := by
    rw [← Nat.pow_succ']
    congr 1
    omega
  have hmod := emod_of_half hlo hhi
  rw [signedBytes, ofBigEndian_bigEndian, hpow, signed, Nat.pow_eq, Nat.pow_eq, hdouble]
  generalize 2 ^ (8 * width - 1) = m at *
  rw [hmod, Nat.mod_eq_of_lt (by split <;> omega)]
  split <;> split <;> omega

/-! ### Values -/

theorem arrayHead_of_lt {n : Nat} (h : n < 2 ^ 32) :
    arrayHead n =
      if n < 16 then [(0x90 + n).toUInt8]
      else if n < 65536 then 0xdc :: bigEndian 2 n
      else 0xdd :: bigEndian 4 n := by
  have hmod : n % 4294967296 = n := Nat.mod_eq_of_lt h
  rw [arrayHead, hmod]

namespace Token

/-- A value in its smallest form. -/
def bytes : Token → Bytes
  | .atom v => intBytes v
  | .word name => textHead name.length ++ name
  | .list n => arrayHead n

/-- Whether the format has a form for the value: a text is not empty, and sizes are held in four
bytes. -/
def fits : Token → Bool
  | .atom _ => true
  | .word name => 0 < name.length && name.length < 2 ^ 32
  | .list n => n < 2 ^ 32

theorem pull_append {width : Nat} {b : Bytes} (h : b.length = width) (rest : Bytes)
    (next : Nat → Bytes → Except StreamError (Token × Bytes)) :
    pull width (b ++ rest) next = next (ofBigEndian b) rest := by
  simp [pull, ← h]

theorem signedAtom_append (width : Nat) {v : Int64} (hw : 0 < width)
    (hlo : -(2 ^ (8 * width - 1) : Nat) ≤ v.toInt) (hhi : v.toInt < (2 ^ (8 * width - 1) : Nat))
    (rest : Bytes) :
    signedAtom width (signedBytes width v.toInt ++ rest) = .ok (.atom v, rest) := by
  rw [signedAtom, pull_append (by simp [signedBytes]), signed_ofBigEndian hw hlo hhi,
    Int64.ofInt_toInt]

theorem wordOf_append {name : Bytes} (h : 0 < name.length) (rest : Bytes) :
    wordOf name.length (name ++ rest) = .ok (.word name, rest) := by
  simp [wordOf, List.length_pos_iff.mp h]

theorem pull_bigEndian (width : Nat) {n : Nat} (h : n < 256 ^ width) (rest : Bytes)
    (next : Nat → Bytes → Except StreamError (Token × Bytes)) :
    pull width (bigEndian width n ++ rest) next = next n rest := by
  rw [pull_append (length_bigEndian width n), ofBigEndian_bigEndian, Nat.mod_eq_of_lt h]

theorem pull_wordOf (width : Nat) {name : Bytes} (hw : name.length < 256 ^ width)
    (h : 0 < name.length) (rest : Bytes) :
    pull width (bigEndian width name.length ++ name ++ rest) wordOf = .ok (.word name, rest) := by
  rw [List.append_assoc, pull_bigEndian width hw, wordOf_append h]

/-- A value is read from the front of a stream: its first byte announces what follows, and the rest
is left. -/
def ReadsFrom (t : Token) (b rest : Bytes) : Prop :=
  ∃ lead more, b = lead :: more ∧ ofLead lead more = .ok (t, rest)

theorem ofLead_shortInt {lead : UInt8} (h : lead.toNat < 0x80) (b : Bytes) :
    ofLead lead b = .ok (.atom (Int64.ofNat lead.toNat), b) := by
  rw [ofLead, if_pos (UInt8.le_iff_toNat_le.mpr (by simp; omega))]

theorem ofLead_shortNegative {lead : UInt8} (h : 0xe0 ≤ lead.toNat) (b : Bytes) :
    ofLead lead b = .ok (.atom (Int64.ofInt (lead.toNat - 256)), b) := by
  rw [ofLead]
  simp only [UInt8.le_iff_toNat_le, UInt8.reduceToNat]
  rw [if_neg (by omega), if_pos (by omega)]

theorem ofLead_shortList {lead : UInt8} (hlo : 0x90 ≤ lead.toNat) (hhi : lead.toNat < 0xa0)
    (b : Bytes) : ofLead lead b = .ok (.list (lead.toNat - 0x90), b) := by
  rw [ofLead]
  simp only [UInt8.le_iff_toNat_le, UInt8.reduceToNat]
  rw [if_neg (by omega), if_neg (by omega), if_pos (by omega)]

theorem ofLead_shortWord {lead : UInt8} (hlo : 0xa0 ≤ lead.toNat) (hhi : lead.toNat < 0xc0)
    (b : Bytes) : ofLead lead b = wordOf (lead.toNat - 0xa0) b := by
  rw [ofLead]
  simp only [UInt8.le_iff_toNat_le, UInt8.reduceToNat]
  rw [if_neg (by omega), if_neg (by omega), if_neg (by omega), if_pos (by omega)]

theorem ofLead_long {lead : UInt8} (hlo : 0xc0 ≤ lead.toNat) (hhi : lead.toNat < 0xe0) (b : Bytes) :
    ofLead lead b = ofLongLead lead b := by
  rw [ofLead]
  simp only [UInt8.le_iff_toNat_le, UInt8.reduceToNat]
  rw [if_neg (by omega), if_neg (by omega), if_neg (by omega), if_neg (by omega)]

theorem readsFrom_long {lead : UInt8} (hlo : 0xc0 ≤ lead.toNat)
    (hhi : lead.toNat < 0xe0) {t : Token} {more rest : Bytes}
    (h : ofLongLead lead more = .ok (t, rest)) : ReadsFrom t (lead :: more) rest :=
  ⟨lead, more, rfl, by rw [ofLead_long hlo hhi, h]⟩

theorem readsFrom_shortInt {v : Int64} (hlo : -32 ≤ v.toInt) (hhi : v.toInt < 128) (rest : Bytes) :
    ReadsFrom (.atom v) (signedBytes 1 v.toInt ++ rest) rest := by
  refine ⟨(v.toInt % 256).toNat.toUInt8, rest, by simp [signedBytes, bigEndian], ?_⟩
  have hbyte : (v.toInt % 256).toNat.toUInt8.toNat = (v.toInt % 256).toNat :=
    toNat_toUInt8 (by omega)
  by_cases hneg : 0 ≤ v.toInt
  · have hvalue : ((v.toInt % 256).toNat : Int) = v.toInt := by omega
    rw [ofLead_shortInt (by omega), hbyte, ← Int64.ofInt_eq_ofNat, hvalue, Int64.ofInt_toInt]
  · have hvalue : ((v.toInt % 256).toNat : Int) - 256 = v.toInt := by omega
    rw [ofLead_shortNegative (by omega), hbyte, hvalue, Int64.ofInt_toInt]

theorem readsFrom_int (v : Int64) (rest : Bytes) :
    ReadsFrom (.atom v) (intBytes v ++ rest) rest := by
  have hlo := Int64.le_toInt v
  have hhi := Int64.toInt_lt v
  rw [intBytes]
  split_ifs with h1 h2 h3 h4
  · exact readsFrom_shortInt h1.1 h1.2 rest
  · exact readsFrom_long (by decide) (by decide)
      (signedAtom_append 1 (by omega) (by omega) (by omega) rest)
  · exact readsFrom_long (by decide) (by decide)
      (signedAtom_append 2 (by omega) (by omega) (by omega) rest)
  · exact readsFrom_long (by decide) (by decide)
      (signedAtom_append 4 (by omega) (by omega) (by omega) rest)
  · exact readsFrom_long (by decide) (by decide)
      (signedAtom_append 8 (by omega) (by omega) (by omega) rest)

theorem readsFrom_word {name : Bytes} (h : 0 < name.length) (hlt : name.length < 2 ^ 32)
    (rest : Bytes) :
    ReadsFrom (.word name) (textHead name.length ++ name ++ rest) rest := by
  rw [textHead]
  split_ifs with h1 h2 h3
  · have hbyte := toNat_toUInt8 (n := 0xa0 + name.length) (by omega)
    refine ⟨_, _, rfl, ?_⟩
    rw [ofLead_shortWord (by omega) (by omega), hbyte, Nat.add_sub_cancel_left]
    exact wordOf_append h rest
  · exact readsFrom_long (by decide) (by decide) (pull_wordOf 1 (by omega) h rest)
  · exact readsFrom_long (by decide) (by decide) (pull_wordOf 2 (by omega) h rest)
  · exact readsFrom_long (by decide) (by decide) (pull_wordOf 4 (by omega) h rest)

theorem readsFrom_list {n : Nat} (h : n < 2 ^ 32) (rest : Bytes) :
    ReadsFrom (.list n) (arrayHead n ++ rest) rest := by
  rw [arrayHead_of_lt h]
  split_ifs with h1 h2
  · have hbyte := toNat_toUInt8 (n := 0x90 + n) (by omega)
    refine ⟨_, _, rfl, ?_⟩
    rw [ofLead_shortList (by omega) (by omega), hbyte, Nat.add_sub_cancel_left]
    rfl
  · exact readsFrom_long (by decide) (by decide)
      (pull_bigEndian 2 (by omega) rest fun n rest => .ok (.list n, rest))
  · exact readsFrom_long (by decide) (by decide)
      (pull_bigEndian 4 (by omega) rest fun n rest => .ok (.list n, rest))

/-- Every value that fits is read back from its smallest form. -/
theorem readsFrom_bytes {t : Token} (h : t.fits = true) (rest : Bytes) :
    ReadsFrom t (t.bytes ++ rest) rest := by
  cases t with
  | atom v => exact readsFrom_int v rest
  | word name =>
      simp only [fits, Bool.and_eq_true, decide_eq_true_eq] at h
      exact readsFrom_word h.1 h.2 rest
  | list n => exact readsFrom_list (by simpa [fits] using h) rest

end Token

end FormReader.Packed
