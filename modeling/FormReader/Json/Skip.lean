import FormReader.Json.Text

/-!
# Passing over JSON

Finds the end of a value that nobody wants. Inside arrays and objects only brackets and strings are
told apart, so anything may stand there as long as as many brackets close as open; and a value may
be missing altogether.
-/

namespace FormReader.Json

/-- The text behind the rest of a string. -/
def skipString (b : Bytes) : Option Bytes :=
  match b with
  | [] => none
  | c :: r =>
    if c == 34 then some r
    else if c == 92 then
      match r with
      | [] => none
      | _ :: rest => skipString rest
    else skipString r

theorem length_of_skipString {b rest : Bytes} (h : skipString b = some rest) :
    rest.length < b.length := by
  fun_induction skipString b with
  | case1 => cases h
  | case2 =>
    simp only [Option.some.injEq] at h
    simp [← h]
  | case3 => cases h
  | case4 _ _ _ _ _ ih =>
    have := ih h
    simp only [List.length_cons]
    omega
  | case5 _ _ _ _ ih =>
    have := ih h
    simp only [List.length_cons]
    omega

/-- The text behind the bracket that closes the outermost of `n + 1` open ones. -/
def skipNested (n : Nat) (b : Bytes) : Option Bytes :=
  match b with
  | [] => none
  | c :: r =>
    if c == 34 then
      match _h : skipString r with
      | some rest => skipNested n rest
      | none => none
    else if c == 91 || c == 123 then skipNested (n + 1) r
    else if c == 93 || c == 125 then
      match n with
      | 0 => some r
      | n + 1 => skipNested n r
    else skipNested n r
termination_by b.length
decreasing_by
  · have := length_of_skipString _h
    simp only [List.length_cons]
    omega
  all_goals simp

theorem length_of_skipNested {n : Nat} {b rest : Bytes} (h : skipNested n b = some rest) :
    rest.length < b.length := by
  fun_induction skipNested n b with
  | case1 => cases h
  | case2 n c r _ t ht ih =>
    have := length_of_skipString ht
    have := ih h
    simp only [List.length_cons]
    omega
  | case3 => cases h
  | case4 n c r _ _ ih =>
    have := ih h
    simp only [List.length_cons]
    omega
  | case5 c r =>
    simp only [Option.some.injEq] at h
    simp [← h]
  | case6 c r _ _ _ n ih =>
    have := ih h
    simp only [List.length_cons]
    omega
  | case7 n c r _ _ _ ih =>
    have := ih h
    simp only [List.length_cons]
    omega

/-- The text behind a value. -/
def skip? (b : Bytes) : Option Bytes :=
  match skipSpaces b with
  | [] => none
  | c :: r =>
    match c with
    | 34 => skipString r
    | 91 | 123 => skipNested 0 r
    | 110 => literal? "ull" r
    | 116 => literal? "rue" r
    | 102 => literal? "alse" r
    | _ => some (numberRun (c :: r)).2

theorem length_of_skip? {b rest : Bytes} (h : skip? b = some rest) : rest.length ≤ b.length := by
  unfold skip? at h
  have hb := length_skipSpaces_le b
  split at h
  · cases h
  · next c r hr =>
    rw [hr, List.length_cons] at hb
    split at h
    case h_1 =>
      have := length_of_skipString h
      omega
    case h_2 =>
      have := length_of_skipNested h
      omega
    case h_3 =>
      have := length_of_skipNested h
      omega
    case h_7 =>
      have := length_numberRun_le (c :: r)
      simp only [Option.some.injEq] at h
      rw [h, List.length_cons] at this
      omega
    all_goals
      have := length_of_literal? h
      omega

end FormReader.Json
