import Mathlib.Data.List.Nodup
import Mathlib.Data.Nat.ModEq

/-!
# A round-robin walk with a budget of steps

The elements of a ring are tried in turn, starting at the position of a counter.
Each step counts against the budget, an element that was tried before is skipped,
and the walk ends at the first element that is accepted.

1. `walk_eq_find?`: the walk finds the first accepted element among those that the
   budget reaches (`window`). Skipping what was tried before makes no difference.
2. `window_covers_iff`: in a ring of distinct elements, each element is reached from
   each position if and only if the budget is at least the size of the ring.
-/

namespace RoundRobin

variable {β : Type*}

/-! ## The walk -/

/-- `walk ring accept steps next seen`: up to `steps` steps from the position `next`,
skipping the elements of `seen`. -/
def walk [DecidableEq β] (ring : List β) (accept : β → Bool) : Nat → Nat → List β → Option β
  | 0, _, _ => none
  | steps + 1, next, seen =>
    match ring[next % ring.length]? with
    | none => none
    | some b =>
      if b ∈ seen then walk ring accept steps (next + 1) seen
      else if accept b then some b
      else walk ring accept steps (next + 1) (b :: seen)

/-- The elements at the positions that `steps` steps reach from `next`. -/
def window (ring : List β) (next steps : Nat) : List β :=
  (List.range steps).filterMap fun i => ring[(next + i) % ring.length]?

theorem mem_window {ring : List β} {next steps : Nat} {b : β} :
    b ∈ window ring next steps ↔ ∃ i < steps, ring[(next + i) % ring.length]? = some b := by
  simp [window]

theorem window_succ (ring : List β) (next steps : Nat) :
    window ring next (steps + 1) =
      ring[next % ring.length]?.toList ++ window ring (next + 1) steps := by
  have shifted : (fun i => ring[(next + i) % ring.length]?) ∘ Nat.succ =
      fun i => ring[(next + 1 + i) % ring.length]? := by
    funext i
    rw [Function.comp_apply, Nat.succ_eq_one_add, Nat.add_assoc]
  unfold window
  rw [List.range_succ_eq_map, List.filterMap_cons, List.filterMap_map, shifted, Nat.add_zero]
  cases ring[next % ring.length]? <;> rfl

theorem window_nil (next steps : Nat) : window ([] : List β) next steps = [] := by
  simp [window]

/-- A position past the counter is one of the ring, unless the ring is empty. -/
theorem eq_nil_of_getElem?_mod {ring : List β} {next : Nat}
    (h : ring[next % ring.length]? = none) : ring = [] := by
  rw [List.getElem?_eq_none_iff] at h
  apply List.eq_nil_of_length_eq_zero
  rcases Nat.eq_zero_or_pos ring.length with empty | pos
  · exact empty
  · exact absurd (Nat.mod_lt next pos) (Nat.not_lt.mpr h)

/-- The invariant of the walk is that nothing it has seen is accepted. -/
theorem walk_eq_find?_of_seen [DecidableEq β] (ring : List β) (accept : β → Bool)
    (steps next : Nat) {seen : List β} (refused : ∀ b ∈ seen, accept b = false) :
    walk ring accept steps next seen = (window ring next steps).find? accept := by
  induction steps generalizing next seen with
  | zero => rfl
  | succ steps ih =>
    rw [walk, window_succ]
    cases at_next : ring[next % ring.length]? with
    | none =>
      rw [eq_nil_of_getElem?_mod at_next, window_nil]
      rfl
    | some b =>
      simp only [Option.toList_some, List.singleton_append, List.find?_cons]
      split
      · next again =>
        rw [refused b again]
        exact ih (next + 1) refused
      · cases accepted : accept b with
        | true => rfl
        | false => exact ih (next + 1) (List.forall_mem_cons.mpr ⟨accepted, refused⟩)

theorem walk_eq_find? [DecidableEq β] (ring : List β) (accept : β → Bool) (steps next : Nat) :
    walk ring accept steps next [] = (window ring next steps).find? accept :=
  walk_eq_find?_of_seen ring accept steps next (by simp)

/-! ## What the budget reaches -/

theorem mem_ring_of_mem_window {ring : List β} {next steps : Nat} {b : β}
    (h : b ∈ window ring next steps) : b ∈ ring := by
  obtain ⟨_, -, found⟩ := mem_window.mp h
  exact List.mem_of_getElem? found

/-- The steps from one position of a ring to another. -/
theorem exists_offset {n j : Nat} (hj : j < n) (next : Nat) : ∃ i < n, (next + i) % n = j := by
  have pos : 0 < n := Nat.zero_lt_of_lt hj
  have small := Nat.mod_lt next pos
  have parts := Nat.mod_add_div next n
  refine ⟨(j + (n - next % n)) % n, Nat.mod_lt _ pos, ?_⟩
  have around : next + (j + (n - next % n)) = j + n * (next / n + 1) := by
    rw [Nat.mul_succ]
    omega
  rw [Nat.add_mod_mod, around, Nat.add_mul_mod_self_left, Nat.mod_eq_of_lt hj]

/-- A budget of the size of the ring reaches every element. -/
theorem mem_window_of_length_le {ring : List β} {steps : Nat} (enough : ring.length ≤ steps)
    (next : Nat) {b : β} (mem : b ∈ ring) : b ∈ window ring next steps := by
  obtain ⟨j, hj, rfl⟩ := List.getElem_of_mem mem
  obtain ⟨i, hi, position⟩ := exists_offset hj next
  refine mem_window.mpr ⟨i, Nat.lt_of_lt_of_le hi enough, ?_⟩
  rw [position, List.getElem?_eq_getElem hj]

/-- The element right behind a smaller budget is not reached. -/
theorem exists_not_mem_window {ring : List β} (distinct : ring.Nodup) {steps : Nat}
    (few : steps < ring.length) (next : Nat) : ∃ b ∈ ring, b ∉ window ring next steps := by
  have pos : 0 < ring.length := Nat.zero_lt_of_lt few
  have inside : ∀ i, (next + i) % ring.length < ring.length := fun i => Nat.mod_lt _ pos
  refine ⟨ring.get ⟨_, inside steps⟩, List.get_mem _ _, ?_⟩
  intro mem
  obtain ⟨i, hi, found⟩ := mem_window.mp mem
  rw [List.getElem?_eq_getElem (inside i), Option.some.injEq, List.get_eq_getElem,
    distinct.getElem_inj_iff] at found
  have same : i ≡ steps [MOD ring.length] := Nat.ModEq.add_left_cancel' next found
  exact Nat.ne_of_lt hi (same.eq_of_lt_of_lt (Nat.lt_trans hi few) few)

theorem window_covers_iff {ring : List β} (distinct : ring.Nodup) (steps : Nat) :
    (∀ next, ∀ b ∈ ring, b ∈ window ring next steps) ↔ ring.length ≤ steps := by
  constructor
  · intro covers
    apply Nat.le_of_not_lt
    intro few
    obtain ⟨b, mem, unreached⟩ := exists_not_mem_window distinct few 0
    exact unreached (covers 0 b mem)
  · exact fun enough next b mem => mem_window_of_length_le enough next mem

end RoundRobin
