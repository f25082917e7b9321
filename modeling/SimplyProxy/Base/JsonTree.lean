import Mathlib.Data.List.Basic
import Mathlib.Data.List.Forall2
import SimplyProxy.Base.JsonText

/-!
# JSON documents as trees

What a JSON document means: an object is a function from member names, so neither
the order of its members nor their spelling matters. The numbers are of any type.
Of two members with one name the last one counts.

`Rel R` relates trees that differ only in their numbers, and there by `R`. It is
monotone in `R` (`Rel.imp`), composes (`Rel.comp`) and is kept when both trees get the same member
(`Rel.setMember`).
-/

namespace JsonText

inductive DocTree (ν : Type)
  | null
  | bool (b : Bool)
  | num (n : ν)
  | str (s : String)
  | arr (items : List (DocTree ν))
  | obj (member : String → Option (DocTree ν))

/-! ## Documents -/

mutual
def Doc.tree : Doc → DocTree Lit
  | .null => .null
  | .bool b => .bool b
  | .num l => .num l
  | .str s => .str s
  | .arr items => .arr (itemTrees items)
  | .obj members => .obj (memberTree members)

def itemTrees : List Doc → List (DocTree Lit)
  | [] => []
  | d :: rest => d.tree :: itemTrees rest

def memberTree : List (String × Doc) → String → Option (DocTree Lit)
  | [] => fun _ => none
  | (name, d) :: rest => fun name' =>
    (memberTree rest name').or (if name' = name then some d.tree else none)
end

theorem itemTrees_eq_map (items : List Doc) : itemTrees items = items.map Doc.tree := by
  induction items with
  | nil => rw [itemTrees, List.map_nil]
  | cons d rest ih => rw [itemTrees, ih, List.map_cons]

namespace DocTree

variable {α β γ : Type} {R : α → β → Prop}

/-! ## Trees with related numbers -/

inductive Rel (R : α → β → Prop) : DocTree α → DocTree β → Prop
  | null : Rel R .null .null
  | bool (b : Bool) : Rel R (.bool b) (.bool b)
  | num {n : α} {n' : β} : R n n' → Rel R (.num n) (.num n')
  | str (s : String) : Rel R (.str s) (.str s)
  | arr {items : List (DocTree α)} {items' : List (DocTree β)} : items.length = items'.length →
      (∀ (i : ℕ) t t', items[i]? = some t → items'[i]? = some t' → Rel R t t') →
      Rel R (.arr items) (.arr items')
  | obj {member : String → Option (DocTree α)} {member' : String → Option (DocTree β)} :
      (∀ name, (member name).isSome = (member' name).isSome) →
      (∀ name t t', member name = some t → member' name = some t' → Rel R t t') →
      Rel R (.obj member) (.obj member')

theorem Rel.refl {R : α → α → Prop} (numbers : ∀ n, R n n) (t : DocTree α) : Rel R t t :=
  @DocTree.rec α (fun t => Rel R t t) (fun items => ∀ t ∈ items, Rel R t t)
    (fun member => ∀ t, member = some t → Rel R t t)
    .null .bool (fun n => .num (numbers n)) .str
    (fun items ih => .arr rfl fun i t t' ht ht' => by
      obtain rfl : t = t' := Option.some.inj (ht.symm.trans ht')
      exact ih t (List.mem_of_getElem? ht))
    (fun member ih => .obj (fun _ => rfl) fun name t t' ht ht' => by
      obtain rfl : t = t' := Option.some.inj (ht.symm.trans ht')
      exact ih name t ht)
    (fun _ ht => by cases ht)
    (fun first rest hfirst hrest t ht => (List.mem_cons.mp ht).elim (fun h => h ▸ hfirst) (hrest t))
    (fun _ ht => by cases ht)
    (fun t ht _ h => Option.some.inj h ▸ ht)
    t

theorem Rel.imp {S : α → β → Prop} (numbers : ∀ n n', R n n' → S n n') {t : DocTree α}
    {t' : DocTree β} (h : Rel R t t') : Rel S t t' := by
  induction h with
  | null => exact .null
  | bool b => exact .bool b
  | num r => exact .num (numbers _ _ r)
  | str s => exact .str s
  | arr length _ ih => exact .arr length ih
  | obj same _ ih => exact .obj same ih

theorem Rel.comp {S : β → γ → Prop} {T : α → γ → Prop}
    (numbers : ∀ n n' n'', R n n' → S n' n'' → T n n'') {t : DocTree α} {t' : DocTree β}
    {t'' : DocTree γ} (h : Rel R t t') (h' : Rel S t' t'') : Rel T t t'' := by
  induction h generalizing t'' with
  | null => cases h'; exact .null
  | bool b => cases h'; exact .bool b
  | num r => cases h' with | num s => exact .num (numbers _ _ _ r s)
  | str s => cases h'; exact .str s
  | @arr items items' length _ ih =>
    cases h' with
    | @arr _ items'' length' related' =>
      refine .arr (length.trans length') fun i t t'' ht ht'' => ?_
      obtain ⟨inRange, -⟩ := List.getElem?_eq_some_iff.mp ht
      obtain ⟨t', ht'⟩ : ∃ t', items'[i]? = some t' :=
        ⟨_, List.getElem?_eq_getElem (length ▸ inRange)⟩
      exact ih i t t' ht ht' (related' i t' t'' ht' ht'')
  | @obj member member' same _ ih =>
    cases h' with
    | @obj _ member'' same' related' =>
      refine .obj (fun name => (same name).trans (same' name)) fun name t t'' ht ht'' => ?_
      obtain ⟨t', ht'⟩ := Option.isSome_iff_exists.mp ((same name).symm.trans (by simp [ht]))
      exact ih name t t' ht ht' (related' name t' t'' ht' ht'')

/-- Related objects have the same members, with related values. A text is the same one. -/
theorem Rel.member {member : String → Option (DocTree α)} {t' : DocTree β}
    (h : Rel R (.obj member) t') : ∃ member', t' = .obj member' ∧
      (∀ name t, member name = some t → ∃ t', member' name = some t' ∧ Rel R t t') ∧
      (∀ name s, member name = some (.str s) → member' name = some (.str s)) ∧
      ∀ name, member name = none → member' name = none := by
  cases h with
  | @obj _ member' same related =>
    have kept : ∀ name t, member name = some t → ∃ t', member' name = some t' ∧ Rel R t t' := by
      intro name t own
      obtain ⟨t', own'⟩ := Option.isSome_iff_exists.mp ((same name).symm.trans (by simp [own]))
      exact ⟨t', own', related name t t' own own'⟩
    refine ⟨member', rfl, kept, fun name s own => ?_, fun name none => ?_⟩
    · obtain ⟨t', own', text⟩ := kept name _ own
      cases text
      exact own'
    · exact Option.isNone_iff_eq_none.mp (by simp [← Option.not_isSome, ← same name, none])

/-- Related arrays have related items. -/
theorem Rel.items {items : List (DocTree α)} {t' : DocTree β} (h : Rel R (.arr items) t') :
    ∃ items', t' = .arr items' ∧ List.Forall₂ (Rel R) items items' := by
  cases h with
  | @arr _ items' length related =>
    refine ⟨items', rfl, List.forall₂_of_length_eq_of_get length fun i inRange inRange' => ?_⟩
    exact related i _ _ (List.getElem?_eq_getElem inRange) (List.getElem?_eq_getElem inRange')

/-! ## Setting a member -/

/-- The tree with the member set, when it is an object. -/
def setMember (t : DocTree α) (name : String) (value : DocTree α) : DocTree α :=
  match t with
  | .obj member => .obj fun name' => if name' = name then some value else member name'
  | t => t

@[simp] theorem setMember_setMember (t : DocTree α) (name : String) (value : DocTree α) :
    (t.setMember name value).setMember name value = t.setMember name value := by
  cases t with
  | obj member =>
    simp only [setMember, obj.injEq]
    funext name'
    split <;> rfl
  | null => rfl
  | bool b => rfl
  | num n => rfl
  | str s => rfl
  | arr items => rfl

theorem Rel.setMember {t : DocTree α} {t' : DocTree β} (h : Rel R t t') (name : String)
    {value : DocTree α} {value' : DocTree β} (hvalue : Rel R value value') :
    Rel R (t.setMember name value) (t'.setMember name value') := by
  cases h with
  | null => exact .null
  | bool b => exact .bool b
  | num r => exact .num r
  | str s => exact .str s
  | arr length related => exact .arr length related
  | obj same related =>
    refine .obj (fun name' => ?_) fun name' t t' ht ht' => ?_
    · by_cases own : name' = name
      · simp [own]
      · simp [own, same name']
    · by_cases own : name' = name
      · obtain rfl : value = t := by simpa [own] using ht
        obtain rfl : value' = t' := by simpa [own] using ht'
        exact hvalue
      · exact related name' t t' (by simpa [own] using ht) (by simpa [own] using ht')

/-- Arrays are related item by item. -/
theorem Rel.cons {t : DocTree α} {t' : DocTree β} (h : Rel R t t') {items : List (DocTree α)}
    {items' : List (DocTree β)} (rest : Rel R (.arr items) (.arr items')) :
    Rel R (.arr (t :: items)) (.arr (t' :: items')) := by
  cases rest with
  | arr length related =>
    refine .arr (by simpa using length) fun i s s' hs hs' => ?_
    cases i with
    | zero =>
      obtain rfl : t = s := by simpa using hs
      obtain rfl : t' = s' := by simpa using hs'
      exact h
    | succ i => exact related i s s' (by simpa using hs) (by simpa using hs')

theorem Rel.map {f : DocTree α → DocTree α} {g : DocTree β → DocTree β}
    (hfg : ∀ t t', Rel R t t' → Rel R (f t) (g t')) {items : List (DocTree α)}
    {items' : List (DocTree β)} (h : Rel R (.arr items) (.arr items')) :
    Rel R (.arr (items.map f)) (.arr (items'.map g)) := by
  cases h with
  | arr length related =>
    refine .arr (by simpa using length) fun i t t' ht ht' => ?_
    simp only [List.getElem?_map, Option.map_eq_some_iff] at ht ht'
    obtain ⟨s, hs, rfl⟩ := ht
    obtain ⟨s', hs', rfl⟩ := ht'
    exact hfg s s' (related i s s' hs hs')

end DocTree

end JsonText
