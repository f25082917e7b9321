import SimplyProxy.RateLimit.Lateness

/-!
# The keys apart

Under interleaved calls each key of the limiter is a deque of its own: it is acted on in the
order in which its entry is taken, and by nothing else.

`decided_independently`: in two runs, maybe of limiters with other windows and with other
clients, the calls that take the entry of a key in the same order get the same answers.
-/

namespace SimplyProxy
namespace RateLimiter.Interleaved
open SlidingWindow Runs

/-! ## One key -/

/-- What taking the entry of a key does to its deque. -/
inductive KeyOp
  | decide (now cutoff : Instant)
  | wipe
  | prune (cutoff : Instant)
deriving DecidableEq

/-- The answer, if any, and the deque afterwards. -/
def KeyOp.run (m : Nat) (deque : List Instant) : KeyOp → Option Bool × List Instant
  | .decide now cutoff =>
    let kept := newer Instant.ns cutoff.ns deque
    if kept.length < m then (some true, kept ++ [now]) else (some false, kept)
  | .wipe => (none, [])
  | .prune cutoff => (none, newer Instant.ns cutoff.ns deque)

/-- A deque on its own: an operation with its answer. -/
def Alone (m : Nat) (deque : List Instant) (e : KeyOp × Option Bool) (deque' : List Instant) :
    Prop := e.1.run m deque = (e.2, deque')

def Pending.keyOp : Pending → KeyOp
  | .allow _ now cutoff => .decide now cutoff
  | .reset _ => .wipe
  | .clear _ => .wipe
  | .evictStale cutoff _ => .prune cutoff

def Effect.answer : Effect → Option Bool
  | .decided _ _ allowed => some allowed
  | .wiped _ => none
  | .pruned _ => none

/-- What a step does to the key, if it takes its entry. -/
def touch (key : String) (s : State) : Action → Option (KeyOp × Option Bool)
  | .enter thread taken =>
    if taken = key then do
      let call ← s.pending thread
      let (_, _, effect) ← call.enter s.limiter key
      return (call.keyOp, effect.answer)
    else none
  | _ => none

/-- A step, labelled with what it does to the key. -/
def Touches (key : String) (s : State) (done : Option (KeyOp × Option Bool)) (s' : State) : Prop :=
  ∃ action, step s action = some s' ∧ touch key s action = done

/-- What is done to the key in a run. -/
def touches (key : String) : State → List Action → List (KeyOp × Option Bool)
  | _, [] => []
  | s, action :: actions =>
    (touch key s action).toList ++ match step s action with
      | none => []
      | some s' => touches key s' actions

/-- The operations that take the entry of the key, in order. -/
def operations (key : String) (s : State) (actions : List Action) : List KeyOp :=
  (touches key s actions).map Prod.fst

def answers (key : String) (s : State) (actions : List Action) : List (Option Bool) :=
  (touches key s actions).map Prod.snd

/-! ## Steps -/

variable {m : Nat} {w w' : Duration} {l l' : RateLimiter} {key : String} {call : Pending}
  {left : Option Pending} {effect : Effect} {s s' : State}

/-- Taking the entry of a key is one operation on its deque. -/
theorem enter_alone (h : call.enter l key = some (l', left, effect)) :
    Alone l.maxRequests (l.deque key) (call.keyOp, effect.answer) (l'.deque key) := by
  cases call with
  | allow own now cutoff =>
    simp only [Pending.enter, Option.ite_none_right_eq_some, Option.some.injEq,
      Prod.mk.injEq] at h
    obtain ⟨rfl, rfl, -, rfl⟩ := h
    have admits := l.allowEntry_admits own now cutoff
    cases answer : (l.allowEntry own now cutoff).1 with
    | true =>
      rw [allowEntry_deque_admitted _ _ _ _ answer]
      simp [Alone, KeyOp.run, Pending.keyOp, Effect.answer, admits.mp answer]
    | false =>
      rw [allowEntry_deque_refused _ _ _ _ answer]
      have full := mt admits.mpr (by simp [answer])
      simp only [Alone, KeyOp.run, Pending.keyOp, Effect.answer, if_neg full]
  | reset own =>
    simp only [Pending.enter, Option.ite_none_right_eq_some, Option.some.injEq,
      Prod.mk.injEq] at h
    obtain ⟨rfl, rfl, -, rfl⟩ := h
    simp [Alone, KeyOp.run, Pending.keyOp, Effect.answer]
  | clear visited =>
    simp only [Pending.enter, Option.ite_none_left_eq_some, Option.some.injEq,
      Prod.mk.injEq] at h
    obtain ⟨-, rfl, -, rfl⟩ := h
    simp [Alone, KeyOp.run, Pending.keyOp, Effect.answer]
  | evictStale cutoff visited =>
    simp only [Pending.enter, Option.ite_none_left_eq_some, Option.some.injEq,
      Prod.mk.injEq] at h
    obtain ⟨-, rfl, -, rfl⟩ := h
    simp [Alone, KeyOp.run, Pending.keyOp, Effect.answer, evictAt_deque]

/-- It leaves the limit and the other keys alone. -/
theorem enter_elsewhere {taken : String} (h : call.enter l taken = some (l', left, effect)) :
    l'.maxRequests = l.maxRequests ∧ ∀ other, other ≠ taken → l'.deque other = l.deque other := by
  rcases enter_cases h with ⟨now, cutoff, -, rfl⟩ | ⟨-, rfl⟩ | ⟨cutoff, -, rfl⟩
  · exact ⟨by simp, fun other apart => allowEntry_deque_other l taken now cutoff apart⟩
  · exact ⟨rfl, fun other apart => by rw [reset_deque, if_neg apart]⟩
  · exact ⟨rfl, fun other apart => by rw [evictAt_deque, if_neg apart]⟩

/-- A step is an operation on the deque of the key, or leaves it alone. -/
theorem touches_cases {label : Option (KeyOp × Option Bool)} (h : Touches key s label s') :
    s'.limiter.maxRequests = s.limiter.maxRequests ∧
      ((label = none ∧ s'.limiter.deque key = s.limiter.deque key) ∨
        ∃ done, label = some done ∧
          Alone s.limiter.maxRequests (s.limiter.deque key) done (s'.limiter.deque key)) := by
  obtain ⟨action, stepped, rfl⟩ := h
  cases action with
  | call thread call =>
    simp only [step, Option.ite_none_right_eq_some, Option.some.injEq] at stepped
    obtain ⟨-, rfl⟩ := stepped
    exact ⟨rfl, .inl ⟨rfl, rfl⟩⟩
  | enter thread taken =>
    simp only [step] at stepped
    split at stepped
    · cases stepped
    · next limiter left effect entered =>
      obtain rfl := Option.some.inj stepped
      obtain ⟨call, pending, entered⟩ := Option.bind_eq_some_iff.mp entered
      refine ⟨(enter_elsewhere entered).1, ?_⟩
      by_cases own : taken = key
      · subst own
        refine .inr ⟨(call.keyOp, effect.answer), ?_, enter_alone entered⟩
        simp [touch, pending, entered]
      · refine .inl ⟨?_, (enter_elsewhere entered).2 key (Ne.symm own)⟩
        simp [touch, own]
  | finish thread =>
    simp only [step] at stepped
    split at stepped
    · cases stepped
    · obtain ⟨-, stepped⟩ := Option.ite_none_right_eq_some.mp stepped
      obtain rfl := Option.some.inj stepped
      exact ⟨rfl, .inl ⟨rfl, rfl⟩⟩

/-! ## Runs -/

/-- The key is a deque on its own. -/
theorem simulates_alone : Simulates (Touches key) (Alone m) id
    fun s deque => s.limiter.maxRequests = m ∧ s.limiter.deque key = deque where
  hidden := by
    rintro s deque e s' ⟨limit, rfl⟩ hstep none
    obtain ⟨same, ⟨-, kept⟩ | ⟨done, some, -⟩⟩ := touches_cases hstep
    · exact ⟨same.trans limit, kept⟩
    · cases none.symm.trans some
  visible := by
    rintro s deque e s' done ⟨rfl, rfl⟩ hstep visible
    obtain ⟨same, ⟨none, -⟩ | ⟨done', some, alone⟩⟩ := touches_cases hstep
    · cases none.symm.trans visible
    · obtain rfl := Option.some.inj (some.symm.trans visible)
      exact ⟨_, alone, same, rfl⟩

theorem alone_determined {deque deque₁ deque₂ : List Instant} {e e' : KeyOp × Option Bool}
    (h : Alone m deque e deque₁) (h' : Alone m deque e' deque₂) (same : e.1 = e'.1) :
    e = e' ∧ deque₁ = deque₂ := by
  unfold Alone at h h'
  rw [same, h'] at h
  obtain ⟨answer, next⟩ := Prod.mk.inj h
  exact ⟨Prod.ext same answer.symm, next.symm⟩

theorem touches_snoc {actions : List Action} (run : exec s actions = some s') (action : Action) :
    touches key s (actions ++ [action]) =
      touches key s actions ++ (touch key s' action).toList := by
  induction actions generalizing s with
  | nil =>
    obtain rfl : s = s' := by simpa [exec] using run
    cases stepped : step s action <;> simp [touches, stepped]
  | cons first actions ih =>
    rw [exec_cons, Option.bind_eq_some_iff] at run
    obtain ⟨mid, stepped, run⟩ := run
    simp only [List.cons_append, touches, stepped, ih run, List.append_assoc]

/-- What a run does to the key, a deque on its own does as well. -/
theorem alone_exec (key : String) {actions : List Action} (run : exec s actions = some s') :
    Run (Alone s.limiter.maxRequests) (s.limiter.deque key) (touches key s actions)
      (s'.limiter.deque key) := by
  have labelled : ∃ labels, Run (Touches key) s labels s' ∧
      labels.filterMap id = touches key s actions := by
    induction actions using List.reverseRecOn generalizing s' with
    | nil =>
      obtain rfl : s = s' := by simpa [exec] using run
      exact ⟨[], .nil, rfl⟩
    | append_singleton actions action ih =>
      rw [exec_append, Option.bind_eq_some_iff] at run
      obtain ⟨mid, before, last⟩ := run
      rw [exec_singleton] at last
      obtain ⟨labels, earlier, same⟩ := ih before
      refine ⟨labels ++ [touch key mid action], earlier.snoc ⟨action, last, rfl⟩, ?_⟩
      rw [List.filterMap_append, same, touches_snoc before]
      cases touch key mid action <;> rfl
  obtain ⟨labels, earlier, same⟩ := labelled
  obtain ⟨_, alone, -, rfl⟩ := simulates_alone.run ⟨rfl, rfl⟩ earlier
  rwa [same] at alone

/-- In any two runs of limiters with the same limit: when the entry of a key is taken for the
same operations in the same order, they get the same answers and leave the same deque. The
calls of other keys, and how the steps of all calls interleave, do not show. -/
theorem decided_independently {l₀ l₀' : RateLimiter} {clock clock' : Instant}
    (h : new m w = .ok l₀) (h' : new m w' = .ok l₀') {actions actions' : List Action}
    (run : exec (start l₀ clock) actions = some s)
    (run' : exec (start l₀' clock') actions' = some s')
    (same : operations key (start l₀ clock) actions = operations key (start l₀' clock') actions') :
    answers key (start l₀ clock) actions = answers key (start l₀' clock') actions' ∧
      s.limiter.deque key = s'.limiter.deque key := by
  obtain ⟨-, rfl⟩ := new_eq_ok h
  obtain ⟨-, rfl⟩ := new_eq_ok h'
  have first := alone_exec key run
  have second := alone_exec key run'
  rw [show (start ⟨m, w, ∅⟩ clock).limiter.deque key = [] from deque_empty m w key] at first
  rw [show (start ⟨m, w', ∅⟩ clock').limiter.deque key = [] from deque_empty m w' key] at second
  obtain ⟨done, deque⟩ := Run.determined alone_determined first second same
  exact ⟨congrArg (List.map Prod.snd) done, deque⟩

/-- Two calls of one client. -/
def byItself : List Action :=
  [.call 0 (.allow "a" (.ofSecs 510 (by decide))), .enter 0 "a",
    .call 0 (.allow "a" (.ofSecs 511 (by decide))), .enter 0 "a"]

/-- The same calls on other threads, among those of another client. -/
def amongOthers : List Action :=
  [.call 5 (.allow "b" (.ofSecs 510 (by decide))), .call 1 (.allow "a" (.ofSecs 510 (by decide))),
    .enter 5 "b", .enter 1 "a", .call 2 (.allow "a" (.ofSecs 511 (by decide))),
    .call 5 (.reset "b"), .enter 5 "b", .enter 2 "a"]

theorem decided_independently_byItself :
    answers "a" (start ⟨1, .fromSecs 10, ∅⟩ (.ofSecs 500 (by decide))) byItself =
      answers "a" (start ⟨1, .fromSecs 10, ∅⟩ (.ofSecs 509 (by decide))) amongOthers := by
  have returns : (exec (start ⟨1, .fromSecs 10, ∅⟩ (.ofSecs 500 (by decide))) byItself).isSome := by
    decide
  have returns' : (exec (start ⟨1, .fromSecs 10, ∅⟩ (.ofSecs 509 (by decide)))
      amongOthers).isSome := by decide
  obtain ⟨s, run⟩ := Option.isSome_iff_exists.mp returns
  obtain ⟨s', run'⟩ := Option.isSome_iff_exists.mp returns'
  have new : new 1 (.fromSecs 10) = .ok ⟨1, .fromSecs 10, ∅⟩ := rfl
  exact (decided_independently new new run run' (by decide)).1

end RateLimiter.Interleaved

end SimplyProxy
