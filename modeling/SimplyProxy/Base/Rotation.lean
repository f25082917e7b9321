import Mathlib.Data.List.Count
import Mathlib.Tactic.Linarith
import SimplyProxy.Base.RoundRobin
import SimplyProxy.Base.Run

/-!
# Round-robin walks, one after another

A walk leaves the counter behind the element that it ends at, and the next walk starts
there. So the elements that a sequence of walks ends at are the accepted elements of the
ring in turn: whatever is skipped on the way, no accepted element comes twice before all
others have come once.

1. `turns_window`: the elements of a sequence of walks are the accepted ones among those
   between the two counters.
2. `turns_perm`: a full turn ends at every accepted element once.
3. `turns_balanced`: after any number of walks the counts of two accepted elements differ
   by at most one.

A `Rotor` is a ring in operation: between the walks elements are marked as up or down.
`Rotor.run_balanced` and `Rotor.run_picks` say what holds of every run of one.
-/

namespace RoundRobin
open Runs

variable {β : Type*} {ring : List β} {accept : β → Bool} {steps next next' : Nat} {b : β}

/-! ## One walk -/

/-- The walk together with the position behind the element at which it ends. -/
def walkOn (ring : List β) (accept : β → Bool) : Nat → Nat → Option (β × Nat)
  | 0, _ => none
  | steps + 1, next =>
    match ring[next % ring.length]? with
    | none => none
    | some b => if accept b then some (b, next + 1) else walkOn ring accept steps (next + 1)

theorem walkOn_fst (ring : List β) (accept : β → Bool) (steps next : Nat) :
    (walkOn ring accept steps next).map Prod.fst = (window ring next steps).find? accept := by
  induction steps generalizing next with
  | zero => rfl
  | succ steps ih =>
    rw [walkOn, window_succ]
    cases at_next : ring[next % ring.length]? with
    | none =>
      rw [eq_nil_of_getElem?_mod at_next, window_nil]
      rfl
    | some b =>
      simp only [Option.toList_some, List.singleton_append, List.find?_cons]
      cases accepted : accept b with
      | true => rfl
      | false => exact ih (next + 1)

theorem window_add (ring : List β) (next m n : Nat) :
    window ring next (m + n) = window ring next m ++ window ring (next + m) n := by
  induction m generalizing next with
  | zero => simp [window]
  | succ m ih =>
    rw [Nat.succ_add, window_succ, ih, window_succ, List.append_assoc, Nat.succ_add_eq_add_succ]

/-- A walk passes over refused elements and ends at the first accepted one. -/
theorem window_of_walkOn (h : walkOn ring accept steps next = some (b, next')) :
    next < next' ∧ (window ring next (next' - next)).filter accept = [b] := by
  induction steps generalizing next with
  | zero => cases h
  | succ steps ih =>
    rw [walkOn] at h
    cases at_next : ring[next % ring.length]? with
    | none => simp [at_next] at h
    | some c =>
      simp only [at_next] at h
      have first : window ring next 1 = [c] := by rw [window_succ, at_next]; rfl
      cases accepted : accept c with
      | true =>
        obtain ⟨rfl, rfl⟩ : c = b ∧ next + 1 = next' := by simpa [accepted] using h
        refine ⟨Nat.lt_succ_self next, ?_⟩
        rw [Nat.add_sub_cancel_left, first]
        simp [accepted]
      | false =>
        obtain ⟨later, rest⟩ := ih (by simpa [accepted] using h)
        refine ⟨Nat.lt_of_succ_lt later, ?_⟩
        obtain ⟨n, rfl⟩ := Nat.exists_eq_add_of_lt later
        have length : next + 1 + n + 1 - next = 1 + (next + 1 + n + 1 - (next + 1)) := by omega
        rw [length, window_add, first, List.filter_append, rest]
        simp [accepted]

/-! ## The window of a whole ring -/

theorem range_filterMap_getElem? (l : List β) :
    (List.range l.length).filterMap (fun i => l[i]?) = l := by
  induction l using List.reverseRecOn with
  | nil => rfl
  | append_singleton l b ih =>
    have before : ∀ i ∈ List.range l.length, (l ++ [b])[i]? = l[i]? := fun i mem =>
      List.getElem?_append_left (List.mem_range.mp mem)
    rw [List.length_append, List.length_singleton, List.range_succ, List.filterMap_append,
      List.filterMap_congr before, ih]
    simp

theorem window_zero (ring : List β) : window ring 0 ring.length = ring := by
  have position : ∀ i ∈ List.range ring.length, ring[(0 + i) % ring.length]? = ring[i]? := by
    intro i mem
    rw [Nat.zero_add, Nat.mod_eq_of_lt (List.mem_range.mp mem)]
  rw [window, List.filterMap_congr position, range_filterMap_getElem?]

/-- Once around the ring, from wherever, is every element once. -/
theorem window_perm (ring : List β) (next : Nat) : (window ring next ring.length).Perm ring := by
  induction next with
  | zero => rw [window_zero]
  | succ next ih =>
    -- the element that is left behind comes last
    have around : window ring (next + ring.length) 1 = window ring next 1 := by
      rw [window_succ, window_succ, Nat.add_mod_right]
      rfl
    have front := window_add ring next 1 ring.length
    rw [Nat.add_comm 1, window_add, around] at front
    have moved : (window ring next 1 ++ window ring (next + 1) ring.length).Perm
        (window ring next 1 ++ window ring next ring.length) := by
      rw [← front]
      exact List.perm_append_comm
    exact ((List.perm_append_left_iff _).mp moved).trans ih

/-! ## A sequence of walks -/

/-- One walk, as a step of the counter. -/
def Turn (ring : List β) (accept : β → Bool) (steps next : Nat) (b : β) (next' : Nat) : Prop :=
  walkOn ring accept steps next = some (b, next')

variable {picks : List β}

/-- Every walk adds what it ends at. -/
theorem turns_window (run : Run (Turn ring accept steps) next picks next') :
    next ≤ next' ∧ picks = (window ring next (next' - next)).filter accept := by
  refine run.invariant
    (I := fun picks next' => next ≤ next' ∧ picks = (window ring next (next' - next)).filter accept)
    ⟨Nat.le_refl next, by simp [window]⟩ ?_
  rintro picks mid b last ⟨le, rfl⟩ turn
  obtain ⟨lt, added⟩ := window_of_walkOn turn
  refine ⟨Nat.le_trans le (Nat.le_of_lt lt), ?_⟩
  have length : last - next = mid - next + (last - mid) := by omega
  rw [length, window_add, List.filter_append, Nat.add_sub_cancel' le, added]

/-- Fewer walks than there are accepted elements do not get around the ring. -/
theorem turns_start (run : Run (Turn ring accept steps) next picks next')
    (few : picks.length ≤ (ring.filter accept).length) :
    picks <+: (window ring next ring.length).filter accept := by
  obtain ⟨-, rfl⟩ := turns_window run
  rcases Nat.le_total (next' - next) ring.length with le | ge
  · obtain ⟨rest, whole⟩ := Nat.exists_eq_add_of_le le
    rw [whole, window_add, List.filter_append]
    exact List.prefix_append _ _
  · obtain ⟨rest, whole⟩ := Nat.exists_eq_add_of_le ge
    rw [whole, window_add, List.filter_append] at few ⊢
    have turn := ((window_perm ring next).filter accept).length_eq
    rw [List.length_append, turn] at few
    have none : (window ring (next + ring.length) rest).filter accept = [] :=
      List.eq_nil_of_length_eq_zero (by omega)
    exact ⟨[], by rw [none, List.append_nil, List.append_nil]⟩

/-- As many walks as there are accepted elements end at each of them once. -/
theorem turns_perm (run : Run (Turn ring accept steps) next picks next')
    (full : picks.length = (ring.filter accept).length) : picks.Perm (ring.filter accept) := by
  have turn := (window_perm ring next).filter accept
  have same := (turns_start run (Nat.le_of_eq full)).eq_of_length (full.trans turn.length_eq.symm)
  exact same ▸ turn

/-- After any number of walks each accepted element has come up as often as all others,
or once more or less. -/
theorem turns_balanced [DecidableEq β] (distinct : ring.Nodup)
    (run : Run (Turn ring accept steps) next picks next') (mem : b ∈ ring.filter accept) :
    picks.length / (ring.filter accept).length ≤ picks.count b ∧
      picks.count b ≤
        (picks.length + (ring.filter accept).length - 1) / (ring.filter accept).length := by
  have pos : 0 < (ring.filter accept).length := List.length_pos_of_mem mem
  induction h : picks.length using Nat.strong_induction_on generalizing picks next with
  | _ q ih =>
    subst h
    rcases Nat.lt_or_ge picks.length (ring.filter accept).length with few | many
    · -- the last turn is not full
      have once : picks.count b ≤ 1 := by
        have turn := ((window_perm ring next).filter accept).count_eq b
        rw [List.count_eq_one_of_mem (distinct.filter accept) mem] at turn
        exact turn ▸ ((turns_start run (Nat.le_of_lt few)).sublist.count_le b)
      refine ⟨by rw [Nat.div_eq_of_lt few]; exact Nat.zero_le _, ?_⟩
      rcases picks.eq_nil_or_concat with rfl | ⟨front, last, rfl⟩
      · simp
      · refine once.trans ((Nat.one_le_div_iff pos).mpr ?_)
        rw [List.concat_eq_append, List.length_append, List.length_singleton]
        omega
    · -- the first turn is full, and each element comes up once in it
      obtain ⟨mid, first, rest⟩ :=
        (picks.take_append_drop (ring.filter accept).length ▸ run).split
      have taken :
          (picks.take (ring.filter accept).length).length = (ring.filter accept).length := by
        rw [List.length_take, Nat.min_eq_left many]
      have left : (picks.drop (ring.filter accept).length).length + (ring.filter accept).length =
          picks.length := by
        rw [List.length_drop, Nat.sub_add_cancel many]
      have once := (turns_perm first taken).count_eq b
      rw [List.count_eq_one_of_mem (distinct.filter accept) mem] at once
      have whole : picks.count b = 1 + (picks.drop (ring.filter accept).length).count b := by
        rw [← once, ← List.count_append, List.take_append_drop]
      obtain ⟨lower, upper⟩ := ih _ (by omega) rest rfl
      rw [whole, ← left, Nat.add_div_right _ pos]
      refine ⟨by omega, ?_⟩
      have ceil : (picks.drop (ring.filter accept).length).length + (ring.filter accept).length +
          (ring.filter accept).length - 1 =
            (picks.drop (ring.filter accept).length).length + (ring.filter accept).length - 1 +
              (ring.filter accept).length := by omega
      rw [ceil, Nat.add_div_right _ pos]
      omega

/-! ## A ring in operation -/

/-- Which elements are up, and the counter. -/
structure Rotor (β : Type*) where
  up : β → Bool
  next : Nat

namespace Rotor

inductive Event (β : Type*)
  /-- A walk, and the element that it ends at. -/
  | pick (found : Option β)
  | mark (b : β) (up : Bool)

/-- The element that a walk ends at. -/
def Event.picked : Event β → Option β
  | .pick found => found
  | .mark _ _ => none

variable [DecidableEq β]

/-- The rotor with an element marked. -/
def marked (r : Rotor β) (b : β) (up : Bool) : Rotor β :=
  { r with up := Function.update r.up b up }

/-- A walk that finds nothing may leave the counter anywhere. -/
inductive Step (ring : List β) (steps : Nat) : Rotor β → Event β → Rotor β → Prop
  | pick {r : Rotor β} {b : β} {next' : Nat} :
      walkOn ring r.up steps r.next = some (b, next') →
      Step ring steps r (.pick (some b)) { r with next := next' }
  | miss {r : Rotor β} {next' : Nat} : walkOn ring r.up steps r.next = none →
      Step ring steps r (.pick none) { r with next := next' }
  | mark (r : Rotor β) (b : β) (up : Bool) : Step ring steps r (.mark b up) (r.marked b up)

/-- Which elements are up behind the events. -/
def upAfter (up : β → Bool) (events : List (Event β)) : β → Bool :=
  events.foldl (fun up e => match e with
    | .pick _ => up
    | .mark b marked => Function.update up b marked) up

/-- What an event marks the element as. -/
def Event.marks (b : β) : Event β → Option Bool
  | .pick _ => none
  | .mark b' up => if b' = b then some up else none

/-- The last mark of an element decides. -/
theorem upAfter_eq (up : β → Bool) (events : List (Event β)) (b : β) :
    upAfter up events b = (events.filterMap (Event.marks b)).getLast?.getD (up b) := by
  induction events using List.reverseRecOn with
  | nil => rfl
  | append_singleton events e ih =>
    unfold upAfter at ih ⊢
    rw [List.foldl_append, List.filterMap_append]
    cases e with
    | pick found => simpa [Event.marks] using ih
    | mark b' marked =>
      by_cases same : b' = b
      · subst same
        simp [Event.marks]
      · simpa [Event.marks, same, Function.update_of_ne (Ne.symm same)] using ih

variable {r₀ r r' : Rotor β} {events : List (Event β)}

theorem run_up (run : Run (Step ring steps) r₀ events r) : r.up = upAfter r₀.up events := by
  refine run.invariant (I := fun events r => r.up = upAfter r₀.up events) rfl ?_
  rintro events r e r' same hstep
  unfold upAfter at same ⊢
  rw [List.foldl_append, ← same]
  cases hstep <;> rfl

/-- What is picked is an element of the ring that is up. When nothing is picked, nothing
within the budget is. -/
theorem Step.pick_up {found : Option β} (h : Step ring steps r (.pick found) r') :
    (∀ b, found = some b → b ∈ ring ∧ r.up b = true) ∧
      (found = none → ∀ b ∈ window ring r.next steps, r.up b = false) := by
  have first := walkOn_fst ring r.up steps r.next
  cases h with
  | pick walked =>
    rw [walked, Option.map_some] at first
    refine ⟨fun b equal => ?_, nofun⟩
    cases equal
    exact ⟨mem_ring_of_mem_window (List.mem_of_find?_eq_some first.symm),
      List.find?_some first.symm⟩
  | miss walked =>
    rw [walked, Option.map_none] at first
    refine ⟨nofun, fun _ b mem => ?_⟩
    simpa using List.find?_eq_none.mp first.symm b mem

/-- In every run of a rotor with a budget of the size of its ring: what is picked is up, and
nothing is picked only when nothing is up. -/
theorem run_picks (budget : ring.length ≤ steps) {found : Option β} {after : List (Event β)}
    (run : Run (Step ring steps) r₀ (events ++ .pick found :: after) r) :
    (∀ b, found = some b → b ∈ ring ∧ upAfter r₀.up events b = true) ∧
      (found = none → ∀ b ∈ ring, upAfter r₀.up events b = false) := by
  obtain ⟨mid, next, before, hstep⟩ := run.cut events _ after rfl
  rw [← run_up before]
  obtain ⟨some_up, none_up⟩ := hstep.pick_up
  exact ⟨some_up, fun none b mem => none_up none b (mem_window_of_length_le budget _ mem)⟩

/-- While nothing is marked and something is up, every walk is a turn. -/
theorem run_turns (budget : ring.length ≤ steps)
    (unmarked : ∀ b up, .mark b up ∉ events) {b : β} (mem : b ∈ ring) (isUp : r₀.up b = true)
    (run : Run (Step ring steps) r₀ events r) :
    r.up = r₀.up ∧ Run (Turn ring r₀.up steps) r₀.next (events.filterMap Event.picked) r.next := by
  refine run.invariant (I := fun events r => (∀ b up, .mark b up ∉ events) → r.up = r₀.up ∧
    Run (Turn ring r₀.up steps) r₀.next (events.filterMap Event.picked) r.next)
    (fun _ => ⟨rfl, .nil⟩) ?_ unmarked
  intro events r e r' ih hstep unmarked
  obtain ⟨same, turns⟩ := ih fun b up old => unmarked b up (List.mem_append_left _ old)
  rw [List.filterMap_append]
  cases hstep with
  | pick walked =>
    refine ⟨same, turns.snoc ?_⟩
    rw [Turn, ← same, walked]
  | miss walked =>
    -- the walk would have found `b`
    have missed : Step ring steps r (.pick none) { r with next := r.next } := .miss walked
    have none := missed.pick_up.2 rfl b (mem_window_of_length_le budget _ mem)
    rw [same, isUp] at none
    cases none
  | mark b up => exact absurd (by simp) (unmarked b up)

/-- In every part of a run in which nothing is marked, the elements that are up are picked
equally often. -/
theorem run_balanced (budget : ring.length ≤ steps) (distinct : ring.Nodup)
    (unmarked : ∀ b up, .mark b up ∉ events) (run : Run (Step ring steps) r₀ events r) {b : β}
    (mem : b ∈ ring.filter r₀.up) :
    (events.filterMap Event.picked).length / (ring.filter r₀.up).length ≤
        (events.filterMap Event.picked).count b ∧
      (events.filterMap Event.picked).count b ≤
        ((events.filterMap Event.picked).length + (ring.filter r₀.up).length - 1) /
          (ring.filter r₀.up).length :=
  have held := List.mem_filter.mp mem
  turns_balanced distinct (run_turns budget unmarked held.1 held.2 run).2 mem

end Rotor

end RoundRobin
