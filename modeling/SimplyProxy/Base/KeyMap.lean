import Mathlib.Data.List.AList
import Mathlib.Data.List.Induction

/-!
# Maps from keys to values

Finite maps whose values do not depend on the key, over Mathlib's association
lists. `KeyMap.get` is the lookup; its `simp` lemmas say what each operation does
to it. The order of the stored entries stands for the order in which a hash map
happens to iterate; no lemma about `get` depends on it (`get_eq_of_perm`).
-/

/-- A finite map with one value for each key it holds. -/
abbrev KeyMap (κ ν : Type) := AList fun _ : κ => ν

namespace KeyMap

variable {κ ν : Type} [DecidableEq κ]

def get (m : KeyMap κ ν) (k : κ) : Option ν := m.lookup k

@[simp] theorem get_empty (k : κ) : get (∅ : KeyMap κ ν) k = none := AList.lookup_empty k

theorem get_eq_none {m : KeyMap κ ν} {k : κ} : get m k = none ↔ k ∉ m := AList.lookup_eq_none

theorem mem_iff_get {m : KeyMap κ ν} {k : κ} : k ∈ m ↔ ∃ v, get m k = some v := by
  rw [← AList.lookup_isSome, Option.isSome_iff_exists]
  rfl

theorem get_eq_some_iff {m : KeyMap κ ν} {k : κ} {v : ν} :
    get m k = some v ↔ (⟨k, v⟩ : Sigma fun _ : κ => ν) ∈ m.entries :=
  AList.mem_lookup_iff

@[simp] theorem get_insert_self (m : KeyMap κ ν) (k : κ) (v : ν) : get (m.insert k v) k = some v :=
  AList.lookup_insert m

theorem get_insert_of_ne (m : KeyMap κ ν) {k k' : κ} (v : ν) (h : k' ≠ k) :
    get (m.insert k v) k' = get m k' :=
  AList.lookup_insert_ne h

theorem get_insert (m : KeyMap κ ν) (k k' : κ) (v : ν) :
    get (m.insert k v) k' = if k' = k then some v else get m k' := by
  split
  · next h => rw [h, get_insert_self]
  · next h => exact get_insert_of_ne m v h

theorem get_erase (m : KeyMap κ ν) (k k' : κ) :
    get (m.erase k) k' = if k' = k then none else get m k' := by
  split
  · next h => rw [h]; exact AList.lookup_erase k m
  · next h => exact AList.lookup_erase_ne h

/-- Iterating over the entries in another order gives the same lookups. -/
theorem get_eq_of_perm {m m' : KeyMap κ ν} (h : m.entries.Perm m'.entries) (k : κ) :
    get m k = get m' k :=
  AList.perm_lookup h

/-! ## Filling a map -/

/-- Entries inserted one after another: the last one of a key is found. -/
theorem get_foldl_insert {α : Type} (key : α → κ) (value : α → ν) (items : List α)
    (m : KeyMap κ ν) (k : κ) :
    get (items.foldl (fun m x => m.insert (key x) (value x)) m) k =
      ((items.reverse.find? fun x => key x = k).map value).or (get m k) := by
  induction items using List.reverseRecOn with
  | nil => simp
  | append_singleton items x ih =>
    rw [List.foldl_append, List.reverse_append]
    simp only [List.foldl_cons, List.foldl_nil, List.reverse_singleton, List.singleton_append,
      get_insert, List.find?_cons]
    by_cases h : key x = k
    · simp [h]
    · rw [if_neg (Ne.symm h), ih]
      simp [h]

/-- One value inserted under several keys. -/
theorem get_foldl_insert_const (v : ν) (keys : List κ) (m : KeyMap κ ν) (k : κ) :
    get (keys.foldl (fun m k => m.insert k v) m) k = if k ∈ keys then some v else get m k := by
  induction keys generalizing m with
  | nil => simp
  | cons k' keys ih =>
    rw [List.foldl_cons, ih, get_insert]
    by_cases mem : k ∈ keys
    · simp [mem]
    · simp [mem]

/-- Inserts a value under a key that the map does not hold, and fails when it does. -/
def insertNew {ε : Type} (held : κ → ε) (v : ν) (m : KeyMap κ ν) (k : κ) :
    Except ε (KeyMap κ ν) :=
  if k ∈ m then .error (held k) else .ok (m.insert k v)

/-- The same value inserted under new keys, one after another: this succeeds
exactly when the keys are distinct and none is held before. -/
theorem foldlM_insertNew_eq_ok {ε : Type} {held : κ → ε} {v : ν} {keys : List κ}
    {m m' : KeyMap κ ν} : keys.foldlM (insertNew held v) m = .ok m' ↔
      keys.Nodup ∧ (∀ k ∈ keys, k ∉ m) ∧ keys.foldl (fun m k => m.insert k v) m = m' := by
  induction keys generalizing m with
  | nil => simp [pure, Except.pure]
  | cons k keys ih =>
    rw [List.foldlM_cons]
    by_cases h : k ∈ m
    · simp [insertNew, h, bind, Except.bind]
    · have inserted : insertNew held v m k = .ok (m.insert k v) := if_neg h
      rw [inserted]
      show keys.foldlM (insertNew held v) (m.insert k v) = .ok m' ↔ _
      rw [ih, List.nodup_cons, List.foldl_cons, List.forall_mem_cons]
      constructor
      · rintro ⟨distinct, fresh, rfl⟩
        refine ⟨⟨fun mem => fresh k mem ?_, distinct⟩, ⟨h, fun k' mem old => fresh k' mem ?_⟩, rfl⟩
        · exact (AList.mem_insert m).mpr (.inl rfl)
        · exact (AList.mem_insert m).mpr (.inr old)
      · rintro ⟨⟨new, distinct⟩, ⟨-, fresh⟩, rfl⟩
        refine ⟨distinct, fun k' mem old => ?_, rfl⟩
        rcases (AList.mem_insert m).mp old with rfl | old
        · exact new mem
        · exact fresh k' mem old

def insertMapped {ε ν' : Type} (f : ν → Except ε ν') (acc : KeyMap κ ν')
    (e : Sigma fun _ : κ => ν) : Except ε (KeyMap κ ν') :=
  (f e.2).map fun v => acc.insert e.1 v

/-- The map with every value replaced by what `f` makes of it, entry by entry;
stops at the first failure. -/
def mapM {ε ν' : Type} (f : ν → Except ε ν') (m : KeyMap κ ν) : Except ε (KeyMap κ ν') :=
  m.entries.foldlM (insertMapped f) ∅

theorem get_foldlM_insertMapped {ε ν' : Type} {f : ν → Except ε ν'}
    {entries : List (Sigma fun _ : κ => ν)} (distinct : entries.NodupKeys) {m' : KeyMap κ ν'}
    (h : entries.foldlM (insertMapped f) ∅ = .ok m') (k : κ) (v' : ν') :
    get m' k = some v' ↔ ∃ v, ⟨k, v⟩ ∈ entries ∧ f v = .ok v' := by
  induction entries using List.reverseRecOn generalizing m' v' with
  | nil =>
    obtain rfl : ∅ = m' := by simpa [pure, Except.pure] using h
    simp
  | append_singleton entries e ih =>
    rw [List.foldlM_append] at h
    have distinctBefore : entries.NodupKeys := distinct.sublist (List.sublist_append_left _ _)
    cases before : entries.foldlM (insertMapped f) ∅ with
    | error err => simp [before, bind, Except.bind] at h
    | ok mid =>
      cases result : f e.2 with
      | error err => simp [before, insertMapped, result, bind, Except.bind, Except.map] at h
      | ok w =>
        obtain rfl : mid.insert e.1 w = m' := by
          simpa [before, insertMapped, result, bind, Except.bind, Except.map, pure,
            Except.pure] using h
        rw [get_insert]
        by_cases hk : k = e.1
        · subst hk
          rw [if_pos rfl, Option.some.injEq]
          constructor
          · rintro rfl
            exact ⟨e.2, by simp, result⟩
          · rintro ⟨v, mem, ok⟩
            have last : (⟨e.1, e.2⟩ : Sigma fun _ : κ => ν) ∈ entries ++ [e] := by simp
            obtain rfl := distinct.eq_of_mk_mem mem last
            exact Except.ok.inj (result.symm.trans ok)
        · rw [if_neg hk, ih distinctBefore before]
          have apart : ∀ v : ν, (⟨k, v⟩ : Sigma fun _ : κ => ν) ≠ e := fun v equal =>
            hk (congrArg Sigma.fst equal)
          simp [apart]

theorem get_mapM {ε ν' : Type} {f : ν → Except ε ν'} {m : KeyMap κ ν} {m' : KeyMap κ ν'}
    (h : mapM f m = .ok m') {k : κ} {v' : ν'} :
    get m' k = some v' ↔ ∃ v, get m k = some v ∧ f v = .ok v' := by
  simp only [get_eq_some_iff (m := m)]
  exact get_foldlM_insertMapped m.nodupKeys h k v'

/-- When it does not stop, no value has failed. -/
theorem ok_of_foldlM_insertMapped {ε ν' : Type} {f : ν → Except ε ν'}
    {entries : List (Sigma fun _ : κ => ν)} {acc m' : KeyMap κ ν'}
    (h : entries.foldlM (insertMapped f) acc = .ok m') : ∀ e ∈ entries, ∃ v', f e.2 = .ok v' := by
  induction entries generalizing acc with
  | nil => simp
  | cons e rest ih =>
    rw [List.foldlM_cons] at h
    cases result : f e.2 with
    | error err => simp [insertMapped, result, bind, Except.bind, Except.map] at h
    | ok v =>
      rw [insertMapped, result] at h
      exact List.forall_mem_cons.mpr ⟨⟨v, result⟩, ih h⟩

theorem get_mapM_of_get {ε ν' : Type} {f : ν → Except ε ν'} {m : KeyMap κ ν} {m' : KeyMap κ ν'}
    (h : mapM f m = .ok m') {k : κ} {v : ν} (found : get m k = some v) :
    ∃ v', f v = .ok v' ∧ get m' k = some v' := by
  obtain ⟨v', result⟩ := ok_of_foldlM_insertMapped h ⟨k, v⟩ (get_eq_some_iff.mp found)
  exact ⟨v', result, (get_mapM h).mpr ⟨v, found, result⟩⟩

theorem exists_foldlM_insertMapped {ε ν' : Type} {f : ν → Except ε ν'}
    {entries : List (Sigma fun _ : κ => ν)} (h : ∀ e ∈ entries, ∃ v', f e.2 = .ok v')
    (acc : KeyMap κ ν') : ∃ m', entries.foldlM (insertMapped f) acc = .ok m' := by
  induction entries generalizing acc with
  | nil => exact ⟨acc, rfl⟩
  | cons e rest ih =>
    obtain ⟨⟨v, result⟩, others⟩ := List.forall_mem_cons.mp h
    obtain ⟨m', done⟩ := ih others (acc.insert e.1 v)
    refine ⟨m', ?_⟩
    rw [List.foldlM_cons, insertMapped, result]
    exact done

/-- It does not stop exactly when no value fails. -/
theorem mapM_isOk_iff {ε ν' : Type} {f : ν → Except ε ν'} {m : KeyMap κ ν} :
    (∃ m', mapM f m = .ok m') ↔ ∀ k v, get m k = some v → ∃ v', f v = .ok v' := by
  constructor
  · rintro ⟨m', done⟩ k v found
    obtain ⟨v', result, -⟩ := get_mapM_of_get done found
    exact ⟨v', result⟩
  · intro h
    exact exists_foldlM_insertMapped (fun e mem => h e.1 e.2 (get_eq_some_iff.mpr mem)) ∅

/-! ## Visiting every entry -/

/-- The value `f` leaves for an entry, none when it drops the entry. -/
def visit (f : κ → ν → Option ν) (e : Sigma fun _ : κ => ν) : Option (Sigma fun _ : κ => ν) :=
  (f e.1 e.2).map fun v => ⟨e.1, v⟩

omit [DecidableEq κ] in
theorem keys_filterMap_visit_sublist (f : κ → ν → Option ν)
    (entries : List (Sigma fun _ : κ => ν)) :
    (entries.filterMap (visit f)).keys.Sublist entries.keys := by
  induction entries with
  | nil => simp
  | cons e rest ih =>
    cases kept : f e.1 e.2 with
    | none =>
      rw [List.filterMap_cons_none (by simp [visit, kept])]
      exact ih.cons _
    | some v =>
      rw [List.filterMap_cons_some (b := ⟨e.1, v⟩) (by simp [visit, kept])]
      simpa using ih.cons_cons e.1

/-- `retain` with a closure that may change the value it is shown: `f k v` is the
new value, none when the entry goes. -/
def retain (f : κ → ν → Option ν) (m : KeyMap κ ν) : KeyMap κ ν where
  entries := m.entries.filterMap (visit f)
  nodupKeys := (keys_filterMap_visit_sublist f m.entries).nodup m.nodupKeys

@[simp] theorem get_retain (f : κ → ν → Option ν) (m : KeyMap κ ν) (k : κ) :
    get (retain f m) k = (get m k).bind (f k) := by
  apply Option.ext
  intro v
  rw [get_eq_some_iff, Option.bind_eq_some_iff]
  simp only [retain, List.mem_filterMap, visit, Option.map_eq_some_iff]
  constructor
  · rintro ⟨⟨k', u⟩, mem, v', kept, equal⟩
    obtain ⟨rfl, rfl⟩ : k' = k ∧ v' = v := by simpa using equal
    exact ⟨u, get_eq_some_iff.mpr mem, kept⟩
  · rintro ⟨u, stored, kept⟩
    exact ⟨⟨k, u⟩, get_eq_some_iff.mp stored, v, kept, rfl⟩

/-- The visit of one key only. -/
def retainAt (f : κ → ν → Option ν) (m : KeyMap κ ν) (k : κ) : KeyMap κ ν :=
  match get m k with
  | none => m
  | some v =>
    match f k v with
    | none => m.erase k
    | some v' => m.insert k v'

theorem get_retainAt (f : κ → ν → Option ν) (m : KeyMap κ ν) (k k' : κ) :
    get (retainAt f m k) k' = if k' = k then (get m k).bind (f k) else get m k' := by
  unfold retainAt
  cases found : get m k with
  | none =>
    by_cases same : k' = k
    · rw [if_pos same, same, Option.bind_none, found]
    · rw [if_neg same]
  | some v =>
    cases kept : f k v with
    | none => simp only [kept, get_erase, Option.bind_some]
    | some v' => simp only [kept, get_insert, Option.bind_some]

/-- Visiting keys one by one, each once, is visiting them all at once. -/
theorem get_foldl_retainAt (f : κ → ν → Option ν) {keys : List κ} (once : keys.Nodup)
    (m : KeyMap κ ν) (k : κ) :
    get (keys.foldl (retainAt f) m) k = if k ∈ keys then (get m k).bind (f k) else get m k := by
  induction keys generalizing m with
  | nil => simp
  | cons k' keys ih =>
    obtain ⟨new, once⟩ := List.nodup_cons.mp once
    rw [List.foldl_cons, ih once, get_retainAt]
    by_cases same : k = k'
    · subst same
      simp [new]
    · simp [same]

/-- Visits that leave no entry unvisited do what `retain` does. -/
theorem get_foldl_retainAt_of_forall_mem (f : κ → ν → Option ν) {keys : List κ}
    (once : keys.Nodup) {m : KeyMap κ ν} (all : ∀ k ∈ keys.foldl (retainAt f) m, k ∈ keys) (k : κ) :
    get (keys.foldl (retainAt f) m) k = get (retain f m) k := by
  rw [get_retain]
  by_cases visited : k ∈ keys
  · rw [get_foldl_retainAt f once, if_pos visited]
  · have dropped := get_eq_none.mpr (mt (all k) visited)
    have same := get_foldl_retainAt f once m k
    rw [if_neg visited] at same
    rw [dropped, ← same, dropped, Option.bind_none]

end KeyMap
