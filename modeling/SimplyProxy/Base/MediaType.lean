import Mathlib.Data.List.Basic

/-!
# Media types in header values

A media type is a type and a subtype, both tokens, with a slash between them. In a
header value it may be followed by white space and by parameters behind a semicolon.
Types and subtypes compare without case.

1. `prefix_text_iff`: whether a value begins with a text that has none of the bytes that
   may follow a media type is decided by the type and the subtype alone.
2. `essence_eq_of_prefix`: a media type that is the named one and begins with its name
   is spelled like it.
-/

/-- The bytes of a token. -/
def MediaType.tokenByte (b : UInt8) : Bool :=
  (48 ≤ b && b ≤ 57) || (65 ≤ b && b ≤ 90) || (97 ≤ b && b ≤ 122) ||
    [33, 35, 36, 37, 38, 39, 42, 43, 45, 46, 94, 95, 96, 124, 126].contains b

structure MediaType.Token where
  bytes : List UInt8
  nonempty : bytes ≠ []
  valid : bytes.all MediaType.tokenByte = true

/-- A media type with what follows it: white space, and parameters that begin with a
semicolon. -/
structure MediaType where
  type : MediaType.Token
  subtype : MediaType.Token
  space : List UInt8
  params : List UInt8
  space_valid : ∀ b ∈ space, b = 32 ∨ b = 9
  params_valid : params = [] ∨ params.head? = some 59

namespace MediaType

/-- The type and the subtype. -/
def essence (m : MediaType) : List UInt8 := m.type.bytes ++ 47 :: m.subtype.bytes

def text (m : MediaType) : List UInt8 := m.essence ++ (m.space ++ m.params)

/-- An ASCII letter in lower case. -/
def lower (b : UInt8) : UInt8 := if 65 ≤ b ∧ b ≤ 90 then b + 32 else b

/-- The media type is the named one, in any case of its letters. -/
def Is (m : MediaType) (name : List UInt8) : Prop := m.essence.map lower = name

/-- The media type begins with the letters of `name`, in any case. -/
def Begins (m : MediaType) (name : List UInt8) : Prop := name <+: m.essence.map lower

instance (m : MediaType) (name : List UInt8) : Decidable (m.Is name) :=
  inferInstanceAs (Decidable (_ = _))

instance (m : MediaType) (name : List UInt8) : Decidable (m.Begins name) :=
  inferInstanceAs (Decidable (_ <+: _))

theorem Is.begins {m : MediaType} {name : List UInt8} (h : m.Is name) : m.Begins name :=
  h ▸ List.prefix_refl _

/-- None of the bytes that may come right behind a media type. -/
def Inside (b : UInt8) : Prop := b ≠ 32 ∧ b ≠ 9 ∧ b ≠ 59

instance : DecidablePred Inside := fun _ => inferInstanceAs (Decidable (_ ∧ _))

/-- The first byte behind a media type. -/
theorem head_rest (m : MediaType) {b : UInt8} {rest : List UInt8}
    (h : m.space ++ m.params = b :: rest) : ¬Inside b := by
  cases space : m.space with
  | nil =>
    rw [space, List.nil_append] at h
    rcases m.params_valid with none | semicolon
    · rw [h] at none
      cases none
    · rw [h, List.head?_cons, Option.some.injEq] at semicolon
      exact fun inside => inside.2.2 semicolon
  | cons b' space' =>
    rw [space, List.cons_append, List.cons.injEq] at h
    have valid := m.space_valid b' (by simp [space])
    rw [h.1] at valid
    exact fun inside => valid.elim inside.1 inside.2.1

theorem prefix_text_iff (m : MediaType) {name : List UInt8} (inside : ∀ b ∈ name, Inside b) :
    name <+: m.text ↔ name <+: m.essence := by
  refine ⟨fun begins => ?_, fun begins => List.prefix_append_of_prefix begins⟩
  rcases List.prefix_or_prefix_of_prefix begins (List.prefix_append m.essence _) with
    short | ⟨more, rfl⟩
  · exact short
  · -- `name` would go on behind the media type
    obtain ⟨rest, equal⟩ := begins
    rw [text, List.append_assoc, List.append_cancel_left_eq] at equal
    cases more with
    | nil => simp
    | cons b more =>
      exact absurd (inside b (by simp)) (m.head_rest equal.symm)

/-- Lower-case spelling is what is left of being the named media type. -/
theorem essence_eq_of_prefix {m : MediaType} {name : List UInt8} (named : m.Is name)
    (begins : name <+: m.essence) : m.essence = name := by
  refine (begins.eq_of_length ?_).symm
  rw [← named, List.length_map]

/-- A spelling in lower case is one of the letters in any case. -/
theorem begins_of_prefix {m : MediaType} {name : List UInt8} (lowerCase : name.map lower = name)
    (begins : name <+: m.essence) : m.Begins name := by
  have := begins.map lower
  rwa [lowerCase] at this

end MediaType
