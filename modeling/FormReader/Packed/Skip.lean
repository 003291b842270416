import FormReader.Packed.Wire

/-!
# Passing over packed values

Finds the end of values that nobody wants. No depth is too great, and everything that has a length
can be passed over, extensions included.
-/

namespace FormReader.Packed

/-- What belongs to a value behind its head. -/
structure Extent where
  /-- How many bytes there are. -/
  bytes : Nat := 0
  /-- How many values there are. -/
  values : Nat := 0

/-- The extent that the number of `width` bytes stands for. -/
def counted? (width : Nat) (f : Nat → Extent) (b : Bytes) : Option (Extent × Bytes) :=
  (number? width b).map fun (n, rest) => (f n, rest)

theorem length_of_counted? {width : Nat} {f : Nat → Extent} {b rest : Bytes} {e : Extent}
    (h : counted? width f b = some (e, rest)) : rest.length ≤ b.length := by
  obtain ⟨⟨n, t⟩, ht, hn⟩ := Option.map_eq_some_iff.1 h
  simp only [Prod.mk.injEq] at hn
  rw [← hn.2]
  exact length_of_number? ht

/-- What belongs to the value that starts with `lead`, and the bytes behind its head. -/
def extent? (lead : UInt8) (b : Bytes) : Option (Extent × Bytes) :=
  match Kind.ofLead lead with
  | .int => some ({ bytes := if lead < 0x80 || 0xe0 ≤ lead then 0 else widthFrom 0xd0 lead }, b)
  | .uint => some ({ bytes := widthFrom 0xcc lead }, b)
  | .str =>
    if lead < 0xc0 then some ({ bytes := lead.toNat - 0xa0 }, b)
    else counted? (widthFrom 0xd9 lead) (fun n => { bytes := n }) b
  | .array =>
    if lead < 0xa0 then some ({ values := lead.toNat - 0x90 }, b)
    else counted? (2 * widthFrom 0xdc lead) (fun n => { values := n }) b
  | .nil => some ({}, b)
  | .bool => some ({}, b)
  | .float32 => some ({ bytes := 4 }, b)
  | .float64 => some ({ bytes := 8 }, b)
  | .bin => counted? (widthFrom 0xc4 lead) (fun n => { bytes := n }) b
  | .map =>
    if lead < 0x90 then some ({ values := 2 * (lead.toNat - 0x80) }, b)
    else counted? (2 * widthFrom 0xde lead) (fun n => { values := 2 * n }) b
  | .ext =>
    if lead < 0xca then counted? (widthFrom 0xc7 lead) (fun n => { bytes := n + 1 }) b
    else some ({ bytes := widthFrom 0xd4 lead + 1 }, b)
  | .invalid => none

theorem length_of_extent? {lead : UInt8} {b rest : Bytes} {e : Extent}
    (h : extent? lead b = some (e, rest)) : rest.length ≤ b.length := by
  have direct {e' : Extent} (h : some (e', b) = some (e, rest)) : rest.length ≤ b.length := by
    simp only [Option.some.injEq, Prod.mk.injEq] at h
    exact Nat.le_of_eq (congrArg List.length h.2.symm)
  unfold extent? at h
  split at h
  case h_3 => split at h <;> first | exact direct h | exact length_of_counted? h
  case h_4 => split at h <;> first | exact direct h | exact length_of_counted? h
  case h_9 => exact length_of_counted? h
  case h_10 => split at h <;> first | exact direct h | exact length_of_counted? h
  case h_11 => split at h <;> first | exact direct h | exact length_of_counted? h
  case h_12 => cases h
  all_goals exact direct h

/-- The bytes behind `n` values. -/
def skip? (n : Nat) (b : Bytes) : Option Bytes :=
  match n, b with
  | 0, b => some b
  | _ + 1, [] => none
  | n + 1, lead :: r =>
    match _h : extent? lead r with
    | some (e, rest) =>
      match _ht : take? e.bytes rest with
      | some (_, rest) => skip? (e.values + n) rest
      | none => none
    | none => none
termination_by b.length
decreasing_by
  have h1 := length_of_extent? _h
  have h2 := length_of_take? _ht
  simp only [List.length_cons]
  omega

end FormReader.Packed
