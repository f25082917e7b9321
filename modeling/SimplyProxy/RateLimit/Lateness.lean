import SimplyProxy.RateLimit.Interleaved

/-!
# How far interleaved calls go astray

A call that samples the clock and then waits for its entry decides late: other calls may have
sampled newer readings and pruned the entry with them. What this can change is bounded, in
every interleaving of `allow`, `reset`, `clear` and `evict_stale`.

1. `decided_between`: a decision is never stricter than the full log of its own reading, and
   at least as strict as that of the newest reading sampled so far. So one that is not late
   is exact.
2. `admitted_le_of_timely`: when the decisions of a key are late by at most `δ`, no window
   that is shorter by `δ` holds more than `max_requests` admitted readings of the key.

The invariant is `Agrees`: above every cutoff that the clock has reached, the deque of a key
and its full log hold the same readings.
-/

namespace SimplyProxy
namespace RateLimiter.Interleaved
open SlidingWindow Runs

/-! ## The full log -/

/-- The reading that an admission of the key has added. -/
def Effect.admission (key : String) : Effect → Option Instant
  | .decided own now allowed => if own = key ∧ allowed then some now else none
  | .wiped _ => none
  | .pruned _ => none

/-- The readings of the admitted calls of the key since it was last wiped. -/
def admittedSince (key : String) (effects : List Effect) : List Instant :=
  (sinceWiped key effects).filterMap (Effect.admission key)

@[simp] theorem admittedSince_wiped (key : String) (effects : List Effect) :
    admittedSince key (effects ++ [.wiped key]) = [] := by
  simp [admittedSince, sinceWiped]

theorem admittedSince_snoc {key : String} {effect : Effect} (kept : effect ≠ .wiped key)
    (effects : List Effect) : admittedSince key (effects ++ [effect]) =
      admittedSince key effects ++ (effect.admission key).toList := by
  rw [admittedSince, sinceWiped_snoc kept, List.filterMap_append, admittedSince]
  cases found : effect.admission key <;> simp [found]

variable {m : Nat} {w : Duration} {δ : Int} {effects : List Effect} {l l₀ : RateLimiter}
  {s s' : State} {clock : Instant} {actions : List Action} {key : String}

/-- What is stored has been admitted. -/
theorem Represents.deque_sublist (h : Represents m effects l) (key : String) :
    (l.deque key).Sublist (admittedSince key effects) := by
  have traced := (h.traced key).filterMap (Effect.admission key)
  have readings :
      (admissions key (l.deque key)).filterMap (Effect.admission key) = l.deque key := by
    rw [admissions, List.filterMap_map]
    simp [Function.comp_def, Effect.admission]
  rwa [readings] at traced

/-! ## The invariant -/

/-- The cutoff of a pending call was sampled, at a clock that has not been ahead of this one. -/
def Pending.Sampled (w : Duration) (clock : Instant) : Pending → Prop
  | .allow _ now cutoff => cutoff.ns = now.ns - w.ns ∧ now.ns ≤ clock.ns
  | .reset _ => True
  | .clear _ => True
  | .evictStale cutoff _ => cutoff.ns ≤ clock.ns - w.ns

structure Agrees (w : Duration) (s : State) : Prop where
  window : s.limiter.window = w
  sampled : ∀ thread call, s.pending thread = some call → call.Sampled w s.clock
  same : ∀ key cut, s.clock.ns - w.ns ≤ cut →
    SameAbove Instant.ns cut (s.limiter.deque key) (admittedSince key s.effects)

theorem Pending.Sampled.mono {call : Pending} {clock' : Instant} (h : call.Sampled w clock)
    (later : clock.ns ≤ clock'.ns) : call.Sampled w clock' := by
  cases call with
  | allow own now cutoff => exact ⟨h.1, h.2.trans later⟩
  | reset own => exact True.intro
  | clear visited => exact True.intro
  | evictStale cutoff visited =>
    have : cutoff.ns ≤ clock.ns - w.ns := h
    show cutoff.ns ≤ clock'.ns - w.ns
    omega

theorem sampled_begun {call : Call} {pending : Pending} (h : begun w call = some pending) :
    pending.Sampled w (call.reading.getD clock) := by
  cases call with
  | allow own now =>
    obtain ⟨cutoff, sub, rfl⟩ := Option.map_eq_some_iff.mp h
    exact ⟨Instant.checkedSub_ns sub, Int.le_refl _⟩
  | reset own =>
    cases h
    exact True.intro
  | clear =>
    cases h
    exact True.intro
  | evictStale now =>
    obtain ⟨cutoff, sub, rfl⟩ := Option.map_eq_some_iff.mp h
    exact Int.le_of_eq (Instant.checkedSub_ns sub)

/-- What taking an entry can be, with the call that takes it and what is left of that. -/
theorem enter_forms {call : Pending} {l' : RateLimiter} {left : Option Pending} {effect : Effect}
    (h : call.enter l key = some (l', left, effect)) :
    (∃ now cutoff, call = .allow key now cutoff ∧ left = none ∧
      effect = .decided key now (l.allowEntry key now cutoff).1 ∧
      l' = (l.allowEntry key now cutoff).2) ∨
    ((left = none ∨ ∃ visited, left = some (.clear visited)) ∧ effect = .wiped key ∧
      l' = l.reset key) ∨
    (∃ cutoff visited, call = .evictStale cutoff visited ∧
      left = some (.evictStale cutoff (key :: visited)) ∧ effect = .pruned key ∧
      l' = evictAt cutoff l key) := by
  cases call with
  | allow own now cutoff =>
    simp only [Pending.enter, Option.ite_none_right_eq_some, Option.some.injEq,
      Prod.mk.injEq] at h
    obtain ⟨rfl, rfl, rfl, rfl⟩ := h
    exact .inl ⟨now, cutoff, rfl, rfl, rfl, rfl⟩
  | reset own =>
    simp only [Pending.enter, Option.ite_none_right_eq_some, Option.some.injEq,
      Prod.mk.injEq] at h
    obtain ⟨-, rfl, rfl, rfl⟩ := h
    exact .inr (.inl ⟨.inl rfl, rfl, rfl⟩)
  | clear visited =>
    simp only [Pending.enter, Option.ite_none_left_eq_some, Option.some.injEq,
      Prod.mk.injEq] at h
    obtain ⟨-, rfl, rfl, rfl⟩ := h
    exact .inr (.inl ⟨.inr ⟨_, rfl⟩, rfl, rfl⟩)
  | evictStale cutoff visited =>
    simp only [Pending.enter, Option.ite_none_left_eq_some, Option.some.injEq,
      Prod.mk.injEq] at h
    obtain ⟨-, rfl, rfl, rfl⟩ := h
    exact .inr (.inr ⟨cutoff, visited, rfl, rfl, rfl, rfl⟩)

/-- What is left of a call keeps its cutoff. -/
theorem sampled_left {call : Pending} {l' : RateLimiter} {left : Option Pending} {effect : Effect}
    (h : call.enter l key = some (l', left, effect)) (sampled : call.Sampled w clock)
    (rest : Pending) (held : left = some rest) : rest.Sampled w clock := by
  rcases enter_forms h with ⟨_, _, -, none, -, -⟩ | ⟨none | ⟨visited, some⟩, -, -⟩ |
    ⟨cutoff, visited, rfl, some, -, -⟩
  · simp [none] at held
  · simp [none] at held
  · obtain rfl := Option.some.inj (some.symm.trans held)
    exact True.intro
  · obtain rfl := Option.some.inj (some.symm.trans held)
    exact sampled

theorem evictAt_deque (cutoff : Instant) (l : RateLimiter) (key other : String) :
    (evictAt cutoff l key).deque other =
      if other = key then newer Instant.ns cutoff.ns (l.deque key) else l.deque other := by
  rw [deque, evictAt_get]
  split
  · exact getD_bind_evictEntry cutoff key _
  · rfl

/-- Taking an entry keeps the agreement above the window of the clock. -/
theorem sameAbove_enter {call : Pending} {l' : RateLimiter} {left : Option Pending}
    {effect : Effect} (h : call.enter l key = some (l', left, effect))
    (sampled : call.Sampled w clock) {other : String} {cut : Int} (above : clock.ns - w.ns ≤ cut)
    (same : SameAbove Instant.ns cut (l.deque other) (admittedSince other effects)) :
    SameAbove Instant.ns cut (l'.deque other) (admittedSince other (effects ++ [effect])) := by
  rcases enter_forms h with ⟨now, cutoff, rfl, -, rfl, rfl⟩ | ⟨-, rfl, rfl⟩ |
    ⟨cutoff, visited, rfl, -, rfl, rfl⟩
  · obtain ⟨sub, le⟩ : cutoff.ns = now.ns - w.ns ∧ now.ns ≤ clock.ns := sampled
    rw [admittedSince_snoc (by simp)]
    by_cases own : other = key
    · subst own
      have pruned := same.prune_of_le (show cutoff.ns ≤ cut by omega)
      cases answer : (l.allowEntry other now cutoff).1 with
      | true =>
        rw [allowEntry_deque_admitted _ _ _ _ answer]
        simpa [Effect.admission] using pruned.push now
      | false =>
        rw [allowEntry_deque_refused _ _ _ _ answer]
        simpa [Effect.admission] using pruned
    · rw [allowEntry_deque_other _ _ _ _ own]
      simpa [Effect.admission, Ne.symm own] using same
  · rw [reset_deque]
    split
    · next own =>
      subst own
      rw [admittedSince_wiped]
      exact .refl cut []
    · next apart =>
      rw [admittedSince_snoc (by simpa using Ne.symm apart)]
      simpa [Effect.admission] using same
  · have le : cutoff.ns ≤ clock.ns - w.ns := sampled
    rw [admittedSince_snoc (by simp), evictAt_deque]
    split
    · next own =>
      subst own
      simpa [Effect.admission] using same.prune_of_le (le.trans above)
    · simpa [Effect.admission] using same

theorem agrees_start (h : new m w = .ok l₀) (clock : Instant) : Agrees w (start l₀ clock) := by
  obtain ⟨-, rfl⟩ := new_eq_ok h
  refine ⟨rfl, by simp [start], fun key cut _ => ?_⟩
  rw [start, deque_empty]
  exact .refl cut []

/-- Every step keeps the invariant, and the clock does not go back. -/
theorem Agrees.step (h : Agrees w s) {action : Action} (hstep : step s action = some s') :
    Agrees w s' := by
  cases action with
  | call thread call =>
    simp only [Interleaved.step, Option.ite_none_right_eq_some, Option.some.injEq] at hstep
    obtain ⟨⟨-, forward⟩, rfl⟩ := hstep
    have later : s.clock.ns ≤ (call.reading.getD s.clock).ns := by
      cases reading : call.reading with
      | none => exact Int.le_refl _
      | some now => exact Instant.le_iff_ns.mp (forward now reading)
    refine ⟨h.window,
      forall_pending (fun t _ pending held => (h.sampled t pending held).mono later)
        fun pending begun => sampled_begun (h.window ▸ begun),
      fun key cut above => h.same key cut ?_⟩
    · have : (call.reading.getD s.clock).ns - w.ns ≤ cut := above
      omega
  | enter thread key =>
    simp only [Interleaved.step] at hstep
    split at hstep
    · cases hstep
    · next l' left effect entered =>
      obtain rfl := Option.some.inj hstep
      obtain ⟨call, held, entered⟩ := Option.bind_eq_some_iff.mp entered
      have sampled := h.sampled thread call held
      refine ⟨?_, forall_pending (fun t _ => h.sampled t) (sampled_left entered sampled),
        fun other cut above => sameAbove_enter entered sampled above (h.same other cut above)⟩
      rw [← h.window]
      rcases enter_forms entered with ⟨_, _, -, -, -, rfl⟩ | ⟨-, -, rfl⟩ | ⟨_, _, -, -, -, rfl⟩
      · exact allowEntry_window _ _ _ _
      · rfl
      · rfl
  | finish thread =>
    simp only [Interleaved.step] at hstep
    split at hstep
    · cases hstep
    · obtain ⟨-, hstep⟩ := Option.ite_none_right_eq_some.mp hstep
      obtain rfl := Option.some.inj hstep
      exact ⟨h.window, forall_pending (fun t _ => h.sampled t) (by simp), h.same⟩

theorem agrees_exec (h : new m w = .ok l₀) (run : exec (start l₀ clock) actions = some s) :
    Agrees w s :=
  (Run.of_foldlM run).invariant (I := fun _ s => Agrees w s) (agrees_start h clock)
    fun agrees hstep => agrees.step hstep

/-! ## Decisions -/

/-- The section of a pending `allow`. -/
theorem enter_allow {thread : Nat} {now cutoff : Instant}
    (pending : s.pending thread = some (.allow key now cutoff))
    (entered : step s (.enter thread key) = some s') :
    s'.effects = s.effects ++ [.decided key now (s.limiter.allowEntry key now cutoff).1] := by
  simp only [step, pending, Option.bind_some, Pending.enter, if_true, Option.some.injEq] at entered
  rw [← entered]

/-- A pending `allow` that admits: above the window of the clock the deque is the log. -/
theorem admits_newer (h : new m w = .ok l₀) (run : exec (start l₀ clock) actions = some s)
    {thread : Nat} {now cutoff : Instant}
    (pending : s.pending thread = some (.allow key now cutoff))
    (admitted : (s.limiter.allowEntry key now cutoff).1 = true) :
    (newer Instant.ns (s.clock.ns - w.ns) (admittedSince key s.effects)).length < m := by
  have agrees := agrees_exec h run
  obtain ⟨sub, le⟩ : cutoff.ns = now.ns - w.ns ∧ now.ns ≤ s.clock.ns :=
    agrees.sampled thread _ pending
  have same : newer Instant.ns (s.clock.ns - w.ns) (s.limiter.deque key) =
      newer Instant.ns (s.clock.ns - w.ns) (admittedSince key s.effects) :=
    agrees.same key _ (Int.le_refl _)
  have fewer : (newer Instant.ns (s.clock.ns - w.ns) (s.limiter.deque key)).Sublist
      (newer Instant.ns cutoff.ns (s.limiter.deque key)) := newer_sublist_of_le (by omega) _
  have admits := (s.limiter.allowEntry_admits key now cutoff).mp admitted
  rw [(represents_exec h run).maxRequests] at admits
  rw [← same]
  exact Nat.lt_of_le_of_lt fewer.length_le admits

/-- One that refuses: what the deque holds above the cutoff is in the log. -/
theorem refuses_newer (h : new m w = .ok l₀) (run : exec (start l₀ clock) actions = some s)
    {thread : Nat} {now cutoff : Instant}
    (pending : s.pending thread = some (.allow key now cutoff))
    (refused : (s.limiter.allowEntry key now cutoff).1 = false) :
    m ≤ (newer Instant.ns (now.ns - w.ns) (admittedSince key s.effects)).length := by
  have represents := represents_exec h run
  obtain ⟨sub, -⟩ : cutoff.ns = now.ns - w.ns ∧ now.ns ≤ s.clock.ns :=
    (agrees_exec h run).sampled thread _ pending
  have admits := s.limiter.allowEntry_admits key now cutoff
  rw [represents.maxRequests, sub] at admits
  have full := Nat.le_of_not_lt (mt admits.mpr (by simp [refused]))
  exact full.trans ((represents.deque_sublist key).filter _).length_le

/-- In every state that steps in any order lead to, the section of a pending `allow`: when it
admits, fewer than `m` readings of the full log are newer than the window of the newest
reading sampled so far. When it refuses, at least `m` are newer than its own window. -/
theorem decided_between (h : new m w = .ok l₀) (run : exec (start l₀ clock) actions = some s)
    {thread : Nat} {now cutoff : Instant}
    (pending : s.pending thread = some (.allow key now cutoff))
    (entered : step s (.enter thread key) = some s') :
    ∃ allowed, s'.effects = s.effects ++ [.decided key now allowed] ∧
      (allowed = true →
        (newer Instant.ns (s.clock.ns - w.ns) (admittedSince key s.effects)).length < m) ∧
      (allowed = false →
        m ≤ (newer Instant.ns (now.ns - w.ns) (admittedSince key s.effects)).length) :=
  ⟨_, enter_allow pending entered, admits_newer h run pending, refuses_newer h run pending⟩

/-- Thread 1 samples at 403 and is late: thread 2 samples at 405 and evicts before it. -/
def evictedBefore : List Action :=
  [.call 0 (.allow "a" (.ofSecs 400 (by decide))), .enter 0 "a",
    .call 1 (.allow "a" (.ofSecs 403 (by decide))),
    .call 2 (.evictStale (.ofSecs 405 (by decide))), .enter 2 "a"]

theorem decided_between_late :
    ∃ s s' allowed, exec (start ⟨2, .fromSecs 10, ∅⟩ (.ofSecs 400 (by decide))) evictedBefore =
        some s ∧ step s (.enter 1 "a") = some s' ∧
      s'.effects = s.effects ++ [.decided "a" (.ofSecs 403 (by decide)) allowed] ∧
      (allowed = true → (newer Instant.ns (s.clock.ns - (Duration.fromSecs 10).ns)
        (admittedSince "a" s.effects)).length < 2) := by
  have both : (exec (start ⟨2, .fromSecs 10, ∅⟩ (.ofSecs 400 (by decide)))
      (evictedBefore ++ [.enter 1 "a"])).isSome := by decide
  rw [exec_append] at both
  obtain ⟨s', run⟩ := Option.isSome_iff_exists.mp both
  obtain ⟨s, first, last⟩ := Option.bind_eq_some_iff.mp run
  rw [exec_singleton] at last
  obtain ⟨cutoff, pending⟩ : ∃ cutoff,
      s.pending 1 = some (.allow "a" (.ofSecs 403 (by decide)) cutoff) := by
    cases first
    exact ⟨_, rfl⟩
  have new : new 2 (.fromSecs 10) = .ok ⟨2, .fromSecs 10, ∅⟩ := rfl
  obtain ⟨allowed, effects, room, -⟩ := decided_between new first pending last
  exact ⟨s, s', allowed, first, last, effects, room⟩

/-! ## Windows -/

/-- If the step is a decision of the key, it is late by at most `δ`: no reading that is newer
than its own by more has been sampled. -/
def onTime (key : String) (δ : Int) (s : State) : Action → Bool
  | .enter thread own =>
    match s.pending thread with
    | some (.allow _ now _) => own ≠ key || s.clock.ns ≤ now.ns + δ
    | _ => true
  | .call _ _ => true
  | .finish _ => true

/-- All steps are. -/
def timely (key : String) (δ : Int) : State → List Action → Bool
  | _, [] => true
  | s, action :: rest =>
    onTime key δ s action && match step s action with
      | none => true
      | some next => timely key δ next rest

theorem timely_snoc {s₀ : State} {action : Action}
    (h : timely key δ s₀ (actions ++ [action]) = true) (run : exec s₀ actions = some s) :
    timely key δ s₀ actions = true ∧ onTime key δ s action = true := by
  induction actions generalizing s₀ with
  | nil =>
    obtain rfl : s₀ = s := by simpa [exec] using run
    exact ⟨rfl, (Bool.and_eq_true_iff.mp h).1⟩
  | cons first rest ih =>
    rw [exec_cons, Option.bind_eq_some_iff] at run
    obtain ⟨next, taken, run⟩ := run
    rw [List.cons_append, timely, taken, Bool.and_eq_true] at h
    obtain ⟨before, last⟩ := ih h.2 run
    rw [timely, taken, Bool.and_eq_true]
    exact ⟨⟨h.1, before⟩, last⟩

/-- A step leaves the log of the key as it is or empties it, or it is the section of a
pending `allow` of the key. -/
theorem step_admittedSince (key : String) {action : Action} (hstep : step s action = some s') :
    (admittedSince key s'.effects = admittedSince key s.effects ∨
      admittedSince key s'.effects = []) ∨
    ∃ thread now cutoff, action = .enter thread key ∧
      s.pending thread = some (.allow key now cutoff) := by
  cases action with
  | call thread call =>
    simp only [step, Option.ite_none_right_eq_some, Option.some.injEq] at hstep
    obtain ⟨-, rfl⟩ := hstep
    exact .inl (.inl rfl)
  | enter thread other =>
    simp only [step] at hstep
    split at hstep
    · cases hstep
    · next l' left effect entered =>
      obtain rfl := Option.some.inj hstep
      obtain ⟨call, held, entered⟩ := Option.bind_eq_some_iff.mp entered
      rcases enter_forms entered with ⟨now, cutoff, rfl, -, rfl, -⟩ | ⟨-, rfl, -⟩ |
        ⟨_, _, -, -, rfl, -⟩
      · by_cases own : other = key
        · subst own
          exact .inr ⟨thread, now, cutoff, rfl, held⟩
        · refine .inl (.inl ?_)
          rw [admittedSince_snoc (by simp)]
          simp [Effect.admission, own]
      · by_cases own : other = key
        · subst own
          exact .inl (.inr (admittedSince_wiped _ _))
        · refine .inl (.inl ?_)
          rw [admittedSince_snoc (by simpa using own)]
          simp [Effect.admission]
      · refine .inl (.inl ?_)
        rw [admittedSince_snoc (by simp)]
        simp [Effect.admission]
  | finish thread =>
    simp only [step] at hstep
    split at hstep
    · cases hstep
    · obtain ⟨-, hstep⟩ := Option.ite_none_right_eq_some.mp hstep
      obtain rfl := Option.some.inj hstep
      exact .inl (.inl rfl)

/-- In every run: when the decisions of the key are late by at most `δ`, no window that is
shorter than the configured one by `δ` holds more than `m` readings admitted since the key
was last wiped. -/
theorem admitted_le_of_timely (h : new m w = .ok l₀)
    (run : exec (start l₀ clock) actions = some s)
    (late : timely key δ (start l₀ clock) actions = true) (t : Int) :
    (inWindow Instant.ns (w.ns - δ) t (admittedSince key s.effects)).length ≤ m := by
  refine Admissible.inWindow_length_le ?_ t
  induction actions using List.reverseRecOn generalizing s with
  | nil =>
    obtain rfl : start l₀ clock = s := by simpa [exec] using run
    exact .nil
  | append_singleton actions action ih =>
    rw [exec_append, Option.bind_eq_some_iff] at run
    obtain ⟨mid, before, last⟩ := run
    rw [exec_singleton] at last
    obtain ⟨earlier, late⟩ := timely_snoc late before
    have safe := ih before earlier
    rcases step_admittedSince key last with (same | wiped) | ⟨thread, now, cutoff, rfl, pending⟩
    · rwa [same]
    · rw [wiped]
      exact .nil
    · rw [enter_allow pending last, admittedSince_snoc (by simp)]
      cases answer : (mid.limiter.allowEntry key now cutoff).1 with
      | false => simpa [Effect.admission] using safe
      | true =>
        have room := admits_newer h before pending answer
        have late : mid.clock.ns ≤ now.ns + δ := by simpa [onTime, pending] using late
        have fewer :
            (newer Instant.ns (now.ns - (w.ns - δ)) (admittedSince key mid.effects)).Sublist
              (newer Instant.ns (mid.clock.ns - w.ns) (admittedSince key mid.effects)) :=
          newer_sublist_of_le (by omega) _
        simpa [Effect.admission] using safe.snoc (Nat.lt_of_le_of_lt fewer.length_le room)

/-- Two seconds late, so no window of eight seconds is too full. -/
theorem admitted_le_of_timely_late :
    ∃ s, exec (start ⟨2, .fromSecs 10, ∅⟩ (.ofSecs 400 (by decide)))
        (evictedBefore ++ [.enter 1 "a"]) = some s ∧
      ∀ t, (inWindow Instant.ns ((Duration.fromSecs 10).ns - 2_000_000_000) t
        (admittedSince "a" s.effects)).length ≤ 2 := by
  have returns : (exec (start ⟨2, .fromSecs 10, ∅⟩ (.ofSecs 400 (by decide)))
      (evictedBefore ++ [.enter 1 "a"])).isSome := by decide
  obtain ⟨s, run⟩ := Option.isSome_iff_exists.mp returns
  have new : new 2 (.fromSecs 10) = .ok ⟨2, .fromSecs 10, ∅⟩ := rfl
  exact ⟨s, run, admitted_le_of_timely new run (by decide)⟩

end RateLimiter.Interleaved

end SimplyProxy
