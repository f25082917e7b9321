import SimplyProxy.Base.Run
import SimplyProxy.RateLimit.Limiter

/-!
# The limiter under concurrent calls

`allow` takes `&self` and may run on any number of threads. Each call is two
atomic steps: it samples the clock, and later it runs on the locked entry of its
key. Between the two, other calls may sample and run. The clock never goes back,
but the sections on the entry need not run in the order of the readings.

1. `admitted_le_of_safe`: in every run in which no section of a key counts a
   reading that an earlier section may have pruned, no window holds more than
   `max_requests` admitted readings of that key. With `max_requests = 1` this
   needs no condition on the run.
2. `overadmission`: in general it fails. A later reading prunes what an earlier
   reading, whose section comes after it, still has to count.
-/

namespace SimplyProxy
namespace RateLimiter.Concurrent
open SlidingWindow Runs

/-- A call of `allow` that has sampled the clock. -/
structure Pending where
  key : String
  now : Instant
  cutoff : Instant

/-- A call whose section on the entry has run. -/
structure Section where
  key : String
  now : Instant
  allowed : Bool
deriving DecidableEq

/-- `pending` has the sampled call of each thread. `sections` records the calls
that have run their section, in the order of the sections; no step reads it. -/
structure State where
  limiter : RateLimiter
  clock : Instant
  pending : Nat → Option Pending
  sections : List Section

inductive Action
  /-- A thread calls `allow key` and samples the clock. -/
  | sample (thread : Nat) (key : String) (now : Instant)
  /-- A thread takes the entry of its key and finishes its call. -/
  | enter (thread : Nat)

def start (limiter : RateLimiter) (clock : Instant) : State :=
  ⟨limiter, clock, fun _ => none, []⟩

/-- One atomic step; `none` when it is not possible in this state. A call whose
cutoff is not representable panics before it takes the entry. -/
def step (s : State) : Action → Option State
  | .sample thread key now =>
    if (s.pending thread).isNone ∧ s.clock ≤ now then
      match now.checkedSub s.limiter.window with
      | none => some { s with clock := now }
      | some cutoff => some { s with
          clock := now
          pending := fun t => if t = thread then some ⟨key, now, cutoff⟩ else s.pending t }
    else none
  | .enter thread =>
    match s.pending thread with
    | none => none
    | some call => some { s with
        limiter := (s.limiter.allowEntry call.key call.now call.cutoff).2
        pending := fun t => if t = thread then none else s.pending t
        sections := s.sections ++
          [⟨call.key, call.now, (s.limiter.allowEntry call.key call.now call.cutoff).1⟩] }

def exec (s : State) (actions : List Action) : Option State := actions.foldlM step s

/-- The readings of the sections of `key`, in the order of the sections. -/
def decided (key : String) (sections : List Section) : List Instant :=
  (sections.filter fun c => c.key = key).map Section.now

/-- The readings of the admitted calls of `key`. -/
def admitted (key : String) (sections : List Section) : List Instant :=
  (sections.filter fun c => c.key = key ∧ c.allowed).map Section.now

/-! ## The invariant -/

structure Inv (m : Nat) (w : Duration) (s : State) : Prop where
  maxRequests : s.limiter.maxRequests = m
  window : s.limiter.window = w
  cutoffs : ∀ thread call, s.pending thread = some call → call.cutoff.ns = call.now.ns - w.ns
  entries : ∀ key, Sections Instant.ns m w.ns (decided key s.sections) (admitted key s.sections)
    (s.limiter.deque key)

variable {m : Nat} {w : Duration} {s s' : State}

theorem inv_start {l₀ : RateLimiter} (h : new m w = .ok l₀) (clock : Instant) :
    Inv m w (start l₀ clock) := by
  obtain ⟨-, rfl⟩ := new_eq_ok h
  refine ⟨rfl, rfl, ?_, fun key => ?_⟩
  · intro thread call pending
    cases pending
  · simp only [start, deque_empty]
    exact .nil

theorem Inv.sample (h : Inv m w s) {thread : Nat} {key : String} {now : Instant}
    (hstep : step s (.sample thread key now) = some s') : Inv m w s' := by
  simp only [step] at hstep
  split at hstep
  · split at hstep
    · cases hstep
      exact ⟨h.maxRequests, h.window, h.cutoffs, h.entries⟩
    · next cutoff sub =>
      cases hstep
      refine ⟨h.maxRequests, h.window, fun t call pending => ?_, h.entries⟩
      simp only at pending
      split at pending
      · cases pending
        rw [h.window] at sub
        exact Instant.checkedSub_ns sub
      · exact h.cutoffs t call pending
  · cases hstep

theorem Inv.enter (h : Inv m w s) {thread : Nat} (hstep : step s (.enter thread) = some s') :
    Inv m w s' := by
  simp only [step] at hstep
  split at hstep
  · cases hstep
  · next call pending =>
    cases hstep
    refine ⟨by simp [h.maxRequests], by simp [h.window], fun t call' pending' => ?_, fun key => ?_⟩
    · -- the other pending calls keep the cutoffs they have sampled
      simp only at pending'
      split at pending'
      · cases pending'
      · exact h.cutoffs t call' pending'
    · -- only the deque of the call's own key changes
      have entry := h.entries key
      by_cases own : call.key = key
      · subst own
        rw [← h.maxRequests] at entry ⊢
        have next := s.limiter.allowEntry_sections call.key call.now call.cutoff entry
          (h.cutoffs thread call pending)
        cases answer : (s.limiter.allowEntry call.key call.now call.cutoff).1 <;>
          simpa [decided, admitted, answer] using next
      · rw [allowEntry_deque_other _ _ _ _ (Ne.symm own)]
        simpa [decided, admitted, own] using entry

theorem inv_exec {l₀ : RateLimiter} (h : new m w = .ok l₀) {clock : Instant}
    {actions : List Action} (run : exec (start l₀ clock) actions = some s) : Inv m w s := by
  refine (Run.of_foldlM run).invariant (I := fun _ s => Inv m w s) (inv_start h clock) ?_
  intro _ s a s' inv hstep
  cases a with
  | sample thread key now => exact inv.sample hstep
  | enter thread => exact inv.enter hstep

/-! ## The limit -/

/-- In every run, at every state reached: when `max_requests` is one, or the
sections of `key` ran in a safe order, no window of the configured length holds
more than `max_requests` admitted readings of `key`. -/
theorem admitted_le_of_safe {l₀ : RateLimiter} (h : new m w = .ok l₀) {clock : Instant}
    {actions : List Action} (run : exec (start l₀ clock) actions = some s) (key : String)
    (safe : m = 1 ∨ OrderSafe Instant.ns w.ns (decided key s.sections)) (t : Int) :
    (inWindow Instant.ns w.ns t (admitted key s.sections)).length ≤ m := by
  have entry := (inv_exec h run).entries key
  rcases safe with rfl | safe
  · exact (entry.admissible_one w.ns_nonneg).inWindow_length_le t
  · exact (entry.admissible safe).inWindow_length_le t

/-- Two threads sample one after the other and run in the same order. -/
def inTurn : List Action :=
  [.sample 0 "a" (.ofSecs 100 (by decide)), .sample 1 "a" (.ofSecs 105 (by decide)),
    .enter 0, .enter 1]

theorem admitted_le_of_safe_inTurn :
    ∃ s, exec (start ⟨2, .fromSecs 10, ∅⟩ (.ofSecs 100 (by decide))) inTurn = some s ∧
      ∀ t, (inWindow Instant.ns (Duration.fromSecs 10).ns t
        (admitted "a" s.sections)).length ≤ 2 := by
  have sections : (exec (start ⟨2, .fromSecs 10, ∅⟩ (.ofSecs 100 (by decide))) inTurn).map
      State.sections = some [⟨"a", .ofSecs 100 (by decide), true⟩,
        ⟨"a", .ofSecs 105 (by decide), true⟩] := by decide
  obtain ⟨s, run, equal⟩ := Option.map_eq_some_iff.mp sections
  have safe : OrderSafe Instant.ns (Duration.fromSecs 10).ns (decided "a" s.sections) := by
    rw [equal]
    exact .of_pairwise (by decide)
  exact ⟨s, run, fun t => admitted_le_of_safe rfl run "a" (.inr safe) t⟩

/-- Two calls run at second 100. Thread 2 samples at 105, thread 3 at 111, and
thread 3 runs first: it prunes both stored readings, which are still in the
window of thread 2. -/
def overtaking : List Action :=
  [.sample 0 "a" (.ofSecs 100 (by decide)), .enter 0,
    .sample 1 "a" (.ofSecs 100 (by decide)), .enter 1,
    .sample 2 "a" (.ofSecs 105 (by decide)), .sample 3 "a" (.ofSecs 111 (by decide)),
    .enter 3, .enter 2]

/-- Without the condition the limit of two requests in ten seconds can be
exceeded: three admitted readings lie in `(95, 105]`. -/
theorem overadmission :
    ¬ ∀ (m : Nat) (w : Duration) (l₀ : RateLimiter), new m w = .ok l₀ →
      ∀ (clock : Instant) (actions : List Action) (s : State),
        exec (start l₀ clock) actions = some s →
        ∀ (key : String) (t : Int),
          (inWindow Instant.ns w.ns t (admitted key s.sections)).length ≤ m := by
  intro limit
  have sections : (exec (start ⟨2, .fromSecs 10, ∅⟩ (.ofSecs 100 (by decide))) overtaking).map
      State.sections = some [⟨"a", .ofSecs 100 (by decide), true⟩,
        ⟨"a", .ofSecs 100 (by decide), true⟩, ⟨"a", .ofSecs 111 (by decide), true⟩,
        ⟨"a", .ofSecs 105 (by decide), true⟩] := by decide
  obtain ⟨s, run, equal⟩ := Option.map_eq_some_iff.mp sections
  have atMostTwo := limit 2 (.fromSecs 10) _ rfl _ _ s run "a" 105_000_000_000
  rw [equal] at atMostTwo
  exact absurd atMostTwo (by decide)

end RateLimiter.Concurrent

end SimplyProxy
