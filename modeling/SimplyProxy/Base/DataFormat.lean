import Mathlib.Algebra.Group.Nat.Defs
import Mathlib.Data.List.Nodup

/-!
# Values in a self-describing format

A format writes values as nodes and reads a node by asking for the kind of value that is
expected. `Format` has both sides, with what each reads of what the other wrote. A `Codec`
writes and reads the values of one type; its fields say that it reads what it wrote.

Records are written with the fields that are present. A field is read by its name, whatever
stands around it (`lookup_present`).
-/

namespace DataFormat

structure Format (N : Type) where
  ofText : String → N
  ofNat : Nat → N
  ofBool : Bool → N
  ofItems : List N → N
  ofEntries : List (String × N) → N
  text : N → Option String
  nat : N → Option Nat
  bool : N → Option Bool
  items : N → Option (List N)
  /-- The entries of a record that has fields of the given names. -/
  entries : List String → N → Option (List (String × N))
  isNull : N → Bool
  text_ofText : ∀ s, text (ofText s) = some s
  nat_ofNat : ∀ n < 2 ^ 64, nat (ofNat n) = some n
  bool_ofBool : ∀ b, bool (ofBool b) = some b
  items_ofItems : ∀ nodes, items (ofItems nodes) = some nodes
  entries_ofEntries : ∀ names es, entries names (ofEntries es) = some es
  isNull_ofText : ∀ s, isNull (ofText s) = false
  isNull_ofNat : ∀ n, isNull (ofNat n) = false
  isNull_ofBool : ∀ b, isNull (ofBool b) = false
  isNull_ofItems : ∀ nodes, isNull (ofItems nodes) = false
  isNull_ofEntries : ∀ es, isNull (ofEntries es) = false

variable {N α β : Type} {F : Format N}

/-- How a type is written and read. `Fits` has the values that can be read. -/
structure Codec (F : Format N) (α : Type) where
  write : α → N
  read : N → Option α
  Fits : α → Prop
  read_write : ∀ a, Fits a → read (write a) = some a
  fits_read : ∀ node a, read node = some a → Fits a
  visible : ∀ a, F.isNull (write a) = false

namespace Codec

/-! ## Values -/

def text (F : Format N) : Codec F String where
  write := F.ofText
  read := F.text
  Fits _ := True
  read_write s _ := F.text_ofText s
  fits_read _ _ _ := True.intro
  visible := F.isNull_ofText

def bool (F : Format N) : Codec F Bool where
  write := F.ofBool
  read := F.bool
  Fits _ := True
  read_write b _ := F.bool_ofBool b
  fits_read _ _ _ := True.intro
  visible := F.isNull_ofBool

/-- Numbers below a bound. -/
def nat (F : Format N) (bound : Nat) (small : bound ≤ 2 ^ 64) : Codec F Nat where
  write := F.ofNat
  read node := (F.nat node).filter (· < bound)
  Fits n := n < bound
  read_write n fits := by
    rw [F.nat_ofNat n (Nat.lt_of_lt_of_le fits small), Option.filter_some_pos]
    exact decide_eq_true fits
  fits_read node n h := by
    obtain ⟨-, below⟩ := Option.filter_eq_some_iff.mp h
    exact of_decide_eq_true below
  visible := F.isNull_ofNat

/-- The same nodes for another type. -/
def along (c : Codec F α) (f : β → α) (g : α → β) (left : ∀ b, g (f b) = b)
    (right : ∀ a, c.Fits a → f (g a) = a) : Codec F β where
  write b := c.write (f b)
  read node := (c.read node).map g
  Fits b := c.Fits (f b)
  read_write b fits := by rw [c.read_write _ fits, Option.map_some, left]
  fits_read node b h := by
    obtain ⟨a, found, rfl⟩ := Option.map_eq_some_iff.mp h
    have fits := c.fits_read node a found
    rwa [right a fits]
  visible b := c.visible (f b)

theorem mapM_read_write (c : Codec F α) {as : List α} (fits : ∀ a ∈ as, c.Fits a) :
    (as.map c.write).mapM c.read = some as := by
  induction as with
  | nil => rfl
  | cons a as ih =>
    rw [List.map_cons, List.mapM_cons, c.read_write a (fits a List.mem_cons_self),
      ih fun b mem => fits b (List.mem_cons_of_mem a mem)]
    rfl

theorem fits_mapM_read (c : Codec F α) {nodes : List N} {as : List α}
    (h : nodes.mapM c.read = some as) : ∀ a ∈ as, c.Fits a := by
  induction nodes generalizing as with
  | nil =>
    obtain rfl := Option.some.inj h
    simp
  | cons node nodes ih =>
    simp only [List.mapM_cons, Option.bind_eq_bind, Option.bind_eq_some_iff] at h
    obtain ⟨a, first, as', rest, equal⟩ := h
    obtain rfl := Option.some.inj equal
    intro b mem
    rcases List.mem_cons.mp mem with rfl | mem
    · exact c.fits_read node b first
    · exact ih rest b mem

def list (c : Codec F α) : Codec F (List α) where
  write as := F.ofItems (as.map c.write)
  read node := (F.items node).bind (List.mapM c.read)
  Fits as := ∀ a ∈ as, c.Fits a
  read_write as fits := by
    rw [F.items_ofItems, Option.bind_some, c.mapM_read_write fits]
  fits_read node as h := by
    obtain ⟨nodes, -, each⟩ := Option.bind_eq_some_iff.mp h
    exact c.fits_mapM_read each
  visible as := F.isNull_ofItems _

end Codec

/-! ## Records -/

/-- The entries that are written for the fields with a value. -/
def present (slots : List (String × Option N)) : List (String × N) :=
  slots.filterMap fun slot => slot.2.map fun node => (slot.1, node)

/-- The node under a name, if there is one; two are an error. -/
def lookup (es : List (String × N)) (name : String) : Option (Option N) :=
  match es.filter fun e => e.1 = name with
  | [] => some none
  | [e] => some (some e.2)
  | _ => none

/-- A field that has to be there. -/
def Codec.field (c : Codec F α) (es : List (String × N)) (name : String) : Option α := do
  let node ← lookup es name
  c.read (← node)

/-- A field that may be left out, or be null. -/
def Codec.optional (c : Codec F α) (es : List (String × N)) (name : String) :
    Option (Option α) := do
  match ← lookup es name with
  | none => some none
  | some node => if F.isNull node then some none else (c.read node).map some

theorem filter_present_of_not_mem {slots : List (String × Option N)} {name : String}
    (h : name ∉ slots.map Prod.fst) : (present slots).filter (fun e => e.1 = name) = [] := by
  rw [List.filter_eq_nil_iff]
  intro e mem same
  obtain ⟨slot, inside, found⟩ := List.mem_filterMap.mp mem
  obtain ⟨node, -, rfl⟩ := Option.map_eq_some_iff.mp found
  exact h (List.mem_map.mpr ⟨slot, inside, of_decide_eq_true same⟩)

/-- A field is found again, or found to be left out. -/
theorem lookup_present {slots : List (String × Option N)} (distinct : (slots.map Prod.fst).Nodup)
    {name : String} {value : Option N} (mem : (name, value) ∈ slots) :
    lookup (present slots) name = some value := by
  obtain ⟨before, after, rfl⟩ := List.append_of_mem mem
  rw [List.map_append, List.map_cons, List.nodup_middle, List.nodup_cons,
    List.mem_append, not_or] at distinct
  obtain ⟨⟨first, last⟩, -⟩ := distinct
  have split : present (before ++ (name, value) :: after) =
      present before ++ (value.map fun node => (name, node)).toList ++ present after := by
    cases value <;> simp [present]
  unfold lookup
  rw [split, List.filter_append, List.filter_append, filter_present_of_not_mem first,
    filter_present_of_not_mem last]
  cases value <;> simp

theorem Codec.field_present (c : Codec F α) {slots : List (String × Option N)}
    (distinct : (slots.map Prod.fst).Nodup) {name : String} (a : α) (fits : c.Fits a)
    (mem : (name, some (c.write a)) ∈ slots) : c.field (present slots) name = some a := by
  unfold Codec.field
  rw [lookup_present distinct mem]
  exact c.read_write a fits

theorem Codec.optional_present (c : Codec F α) {slots : List (String × Option N)}
    (distinct : (slots.map Prod.fst).Nodup) {name : String} (a : Option α)
    (fits : ∀ b, a = some b → c.Fits b) (mem : (name, a.map c.write) ∈ slots) :
    c.optional (present slots) name = some a := by
  unfold Codec.optional
  rw [lookup_present distinct mem]
  cases a with
  | none => rfl
  | some b => simp [c.visible, c.read_write b (fits b rfl)]

theorem Codec.fits_field {c : Codec F α} {es : List (String × N)} {name : String} {a : α}
    (h : c.field es name = some a) : c.Fits a := by
  simp only [Codec.field, Option.bind_eq_bind, Option.bind_eq_some_iff] at h
  obtain ⟨-, -, node, -, found⟩ := h
  exact c.fits_read node a found

theorem Codec.fits_optional {c : Codec F α} {es : List (String × N)} {name : String}
    {a : Option α} (h : c.optional es name = some a) : ∀ b, a = some b → c.Fits b := by
  rintro b rfl
  simp only [Codec.optional, Option.bind_eq_bind, Option.bind_eq_some_iff] at h
  obtain ⟨value, -, found⟩ := h
  cases value with
  | none => simp at found
  | some node =>
    have found : (if F.isNull node then some none else (c.read node).map some) = some (some b) :=
      found
    split at found
    · cases found
    · obtain ⟨b', read, equal⟩ := Option.map_eq_some_iff.mp found
      obtain rfl := Option.some.inj equal
      exact c.fits_read node b' read

end DataFormat
