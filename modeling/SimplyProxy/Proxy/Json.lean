import SimplyProxy.Base.Binary64
import SimplyProxy.Base.JsonTree
import SimplyProxy.Platform.Pingora

/-!
# JSON values in the response body filter

`serde_json::Value` as the filter sees it, and the rewriting that it does on one
(`tag`). The parser and the writer of `serde_json` are not part of the repository:
`SerdeJson` has them as parameters, and `SerdeJson.Documented` says what they do
with the features that `Cargo.toml` selects. An integer literal that fits 64 bits is
kept, any other number is held as some double. `SerdeJson.RoundsToNearest` says that it
is the nearest one, which the parser does not always find: the feature `float_roundtrip`
is not selected.

1. `tag_tagged`: what `tag` changes, member by member and item by item.
2. `tag_tree`: the same on the document that a value stands for.
-/

namespace SimplyProxy
open JsonText

/-! ## Values -/

inductive Number
  | posInt (n : UInt64)
  | negInt (n : Int64)
  | float (f : Binary64)
deriving DecidableEq

/-- The members of an object are sorted by name and have different names, as in a
`BTreeMap`. -/
inductive Value
  | null
  | bool (b : Bool)
  | number (n : Number)
  | string (s : String)
  | array (items : List Value)
  | object (members : List (String × Value))

abbrev Members := List (String × Value)

namespace Members

def get (members : Members) (name : String) : Option Value :=
  (members.find? fun m => m.1 = name).map Prod.snd

/-- Inserts a member at its place, or replaces the value that it has. -/
def insert : Members → String → Value → Members
  | [], name, value => [(name, value)]
  | (name', value') :: rest, name, value =>
    if name < name' then (name, value) :: (name', value') :: rest
    else if name = name' then (name, value) :: rest
    else (name', value') :: insert rest name value

theorem get_cons (m : String × Value) (rest : Members) (name : String) :
    get (m :: rest) name = if m.1 = name then some m.2 else get rest name := by
  unfold get
  by_cases h : m.1 = name <;> simp [h]

theorem get_insert (members : Members) (name name' : String) (value : Value) :
    (members.insert name value).get name' =
      if name' = name then some value else members.get name' := by
  induction members with
  | nil => simp [insert, get, eq_comm]
  | cons m rest ih =>
    unfold insert
    split
    · rw [get_cons]
      simp [eq_comm]
    · split
      · next same =>
        rw [get_cons, get_cons, ← same]
        by_cases own : name' = name
        · simp [own]
        · simp [own, Ne.symm own]
      · next other =>
        rw [get_cons, get_cons, ih]
        by_cases own : name' = name
        · simp [own, Ne.symm other]
        · simp [own]

/-- Inserting a member again changes nothing. -/
theorem insert_insert (members : Members) (name : String) (value : Value) :
    (members.insert name value).insert name value = members.insert name value := by
  induction members with
  | nil => simp [insert]
  | cons m rest ih =>
    by_cases before : name < m.1
    · simp [insert, before]
    · by_cases same : name = m.1
      · simp [insert, same]
      · simp [insert, before, same, ih]

end Members

/-! ## Rewriting -/

/-- The member that marks an object. -/
def tagMembers (members : Members) : Members := members.insert "x-simple-proxy" (.string "v0.1")

/-- The rewriting of one item of an array. -/
def tagItem : Value → Value
  | .object obj => .object (tagMembers obj)
  | item => item

/-- The rewriting of a whole body. -/
def tag : Value → Value
  | .object obj => .object (tagMembers obj)
  | .array arr => .array (arr.map tagItem)
  | json => json

theorem tagItem_tagItem (v : Value) : tagItem (tagItem v) = tagItem v := by
  cases v with
  | object members => exact congrArg Value.object (Members.insert_insert members _ _)
  | null => rfl
  | bool b => rfl
  | number n => rfl
  | string s => rfl
  | array items => rfl

/-- Rewriting a rewritten body changes nothing. -/
theorem tag_tag (v : Value) : tag (tag v) = tag v := by
  cases v with
  | array items =>
    simp only [tag, List.map_map, Value.array.injEq]
    exact List.map_congr_left fun item _ => tagItem_tagItem item
  | object members => exact tagItem_tagItem (.object members)
  | null => rfl
  | bool b => rfl
  | number n => rfl
  | string s => rfl

/-- `v'` is `v` with the mark when it is an object, and `v` otherwise. -/
def TaggedItem (v v' : Value) : Prop :=
  match v with
  | .object members => ∃ members', v' = .object members' ∧ ∀ name, Members.get members' name =
      if name = "x-simple-proxy" then some (.string "v0.1") else Members.get members name
  | v => v' = v

/-- An array has its items marked, in place; any other value is marked itself. -/
def Tagged (v v' : Value) : Prop :=
  match v with
  | .array items => ∃ items', v' = .array items' ∧ List.Forall₂ TaggedItem items items'
  | v => TaggedItem v v'

theorem tagItem_tagged (v : Value) : TaggedItem v (tagItem v) := by
  cases v with
  | object members => exact ⟨_, rfl, fun name => Members.get_insert members _ name _⟩
  | null => rfl
  | bool b => rfl
  | number n => rfl
  | string s => rfl
  | array items => rfl

theorem tag_tagged (v : Value) : Tagged v (tag v) := by
  cases v with
  | array items =>
    refine ⟨_, rfl, ?_⟩
    rw [List.forall₂_map_right_iff, List.forall₂_same]
    exact fun item _ => tagItem_tagged item
  | object members => exact tagItem_tagged (.object members)
  | null => rfl
  | bool b => rfl
  | number n => rfl
  | string s => rfl

/-! ## The document of a value -/

mutual
def Value.tree : Value → DocTree Number
  | .null => .null
  | .bool b => .bool b
  | .number n => .num n
  | .string s => .str s
  | .array items => .arr (valueTrees items)
  | .object members => .obj (memberTrees members)

def valueTrees : List Value → List (DocTree Number)
  | [] => []
  | v :: rest => v.tree :: valueTrees rest

def memberTrees : List (String × Value) → String → Option (DocTree Number)
  | [] => fun _ => none
  | (name, v) :: rest => fun name' => if name = name' then some v.tree else memberTrees rest name'
end

/-- The rewriting on documents. -/
def tagTree {ν : Type} : DocTree ν → DocTree ν
  | .arr items => .arr (items.map fun item => item.setMember "x-simple-proxy" (.str "v0.1"))
  | t => t.setMember "x-simple-proxy" (.str "v0.1")

theorem memberTrees_eq_get (members : Members) (name : String) :
    memberTrees members name = (members.get name).map Value.tree := by
  induction members with
  | nil => simp [memberTrees, Members.get]
  | cons m rest ih =>
    rw [Members.get_cons]
    simp only [memberTrees, ih]
    split <;> rfl

theorem valueTrees_eq_map (items : List Value) : valueTrees items = items.map Value.tree := by
  induction items with
  | nil => rw [valueTrees, List.map_nil]
  | cons v rest ih => rw [valueTrees, ih, List.map_cons]

theorem tagItem_tree (v : Value) :
    (tagItem v).tree = v.tree.setMember "x-simple-proxy" (.str "v0.1") := by
  cases v with
  | object members =>
    simp only [tagItem, Value.tree, DocTree.setMember, DocTree.obj.injEq]
    funext name
    rw [memberTrees_eq_get, tagMembers, Members.get_insert, memberTrees_eq_get]
    split
    · simp [Value.tree]
    · rfl
  | null => simp [tagItem, Value.tree, DocTree.setMember]
  | bool b => simp [tagItem, Value.tree, DocTree.setMember]
  | number n => simp [tagItem, Value.tree, DocTree.setMember]
  | string s => simp [tagItem, Value.tree, DocTree.setMember]
  | array items => simp [tagItem, Value.tree, DocTree.setMember]

theorem tag_tree (v : Value) : (tag v).tree = tagTree v.tree := by
  cases v with
  | array items =>
    simp only [tag, Value.tree, tagTree, valueTrees_eq_map, List.map_map, DocTree.arr.injEq]
    exact List.map_congr_left fun item _ => tagItem_tree item
  | object members =>
    have := tagItem_tree (.object members)
    simpa [tag, tagItem, tagTree, Value.tree] using this
  | null => simp [tag, Value.tree, tagTree, DocTree.setMember]
  | bool b => simp [tag, Value.tree, tagTree, DocTree.setMember]
  | number n => simp [tag, Value.tree, tagTree, DocTree.setMember]
  | string s => simp [tag, Value.tree, tagTree, DocTree.setMember]

/-- Marking twice is marking once. -/
theorem tagTree_tagTree {ν : Type} (t : DocTree ν) : tagTree (tagTree t) = tagTree t := by
  cases t with
  | arr items => simp [tagTree]
  | obj member => exact DocTree.setMember_setMember (.obj member) _ _
  | null => rfl
  | bool b => rfl
  | num n => rfl
  | str s => rfl

theorem tagTree_rel {α β : Type} {R : α → β → Prop} {t : DocTree α} {t' : DocTree β}
    (h : DocTree.Rel R t t') : DocTree.Rel R (tagTree t) (tagTree t') := by
  have marked := h.setMember "x-simple-proxy" (.str "v0.1")
  cases h with
  | arr length related =>
    exact DocTree.Rel.map (fun _ _ item => item.setMember _ (.str _)) (.arr length related)
  | null => exact marked
  | bool b => exact marked
  | num r => exact marked
  | str s => exact marked
  | obj same related => exact marked

/-! ## Parser and writer -/

structure SerdeJson where
  fromSlice : Bytes → Option Value
  toWriter : Value → Option Bytes

/-- The literal is an integer that fits `u64` or `i64`. -/
def Fits64 (l : Lit) : Prop := l.isInt ∧ -2 ^ 63 ≤ l.value ∧ l.value < 2 ^ 64

/-- How a number literal is held. The literal `-0` is held as a double, and which double another
literal becomes is left open. -/
inductive HoldsNumber : Lit → Number → Prop
  | posInt {l : Lit} {n : UInt64} : l.isInt → l.value = n.toNat → HoldsNumber l (.posInt n)
  | negInt {l : Lit} {n : Int64} : l.isInt → l.value = n.toInt → HoldsNumber l (.negInt n)
  | negZero {l : Lit} {f : Binary64} : l.isInt → l.value = 0 → f.value = 0 →
      HoldsNumber l (.float f)
  | float {l : Lit} {f : Binary64} : ¬Fits64 l → HoldsNumber l (.float f)

/-- How a number is written. A double that is zero is written as zero. -/
inductive PrintsNumber : Number → Lit → Prop
  | posInt {l : Lit} {n : UInt64} : l.value = n.toNat → PrintsNumber (.posInt n) l
  | negInt {l : Lit} {n : Int64} : l.value = n.toInt → PrintsNumber (.negInt n) l
  | float {l : Lit} {f : Binary64} : (f.value = 0 → l.value = 0) → PrintsNumber (.float f) l

structure SerdeJson.Documented (serde : SerdeJson) : Prop where
  /-- Only JSON texts are parsed, to what they denote. -/
  parses : ∀ bytes v, serde.fromSlice bytes = some v →
    ∃ d, read bytes = some d ∧ DocTree.Rel HoldsNumber d.tree v.tree
  /-- Every value is written, as a JSON text that denotes it. -/
  writes : ∀ v, ∃ bytes d, serde.toWriter v = some bytes ∧ read bytes = some d ∧
    DocTree.Rel PrintsNumber v.tree d.tree

/-- A number that is held as a double is the nearest one to the literal. -/
def Nearest (l : Lit) (n : Number) : Prop := ∀ f, n = .float f → f.IsNearest l.value

/-- Doubles are rounded to the nearest, from the literals that are read and for those that are
written. -/
structure SerdeJson.RoundsToNearest (serde : SerdeJson) : Prop where
  parses : ∀ bytes v, serde.fromSlice bytes = some v →
    ∃ d, read bytes = some d ∧ DocTree.Rel Nearest d.tree v.tree
  writes : ∀ v, ∃ bytes d, serde.toWriter v = some bytes ∧ read bytes = some d ∧
    DocTree.Rel (fun n l => Nearest l n) v.tree d.tree

theorem SerdeJson.Documented.fromSlice_nil {serde : SerdeJson} (h : serde.Documented) :
    serde.fromSlice [] = none := by
  cases parsed : serde.fromSlice [] with
  | none => rfl
  | some v =>
    obtain ⟨d, text, -⟩ := h.parses [] v parsed
    have empty : read [] = none := by decide
    rw [empty] at text
    cases text

end SimplyProxy
