import Mathlib.Data.List.Induction
import SimplyProxy.Base.Run
import SimplyProxy.RateLimit.Limiter

/-!
# The limiter, one call after another

The abstract model of the limiter is the full log: for each key the readings of
all `allow` calls that returned true since the key was last reset, with nothing
ever pruned. A request is to be admitted when fewer than `max_requests` of them
lie in its window.

`allow_exact`: executed one after another, with readings that never go back, the
limiter gives exactly the answers of the full log. The invariant is `Tracks`:
above every cutoff that the clock has reached, the stored deque of a key and its
full log hold the same readings.
-/

namespace SimplyProxy
namespace RateLimiter
open SlidingWindow Runs

/-! ## Calls and runs -/

/-- A call on the limiter, with the reading of the clock where it takes one. -/
inductive Call
  | allow (key : String) (now : Instant)
  | reset (key : String)
  | clear
  | evictStale (now : Instant)

def Call.reading : Call → Option Instant
  | .allow _ now => some now
  | .reset _ => none
  | .clear => none
  | .evictStale now => some now

/-- The readings that the calls take, in order. -/
def readings (calls : List Call) : List Instant := calls.filterMap Call.reading

/-- Performs one call. Only `allow` has an answer. -/
def perform (self : RateLimiter) : Call → Except Panic (Option Bool × RateLimiter)
  | .allow key now => (self.allow key now).map fun r => (some r.1, r.2)
  | .reset key => .ok (none, self.reset key)
  | .clear => .ok (none, self.clear)
  | .evictStale now => (self.evictStale now).map fun l => (none, l)

/-- A call that has returned. -/
structure Event where
  call : Call
  answer : Option Bool

def Step (l : RateLimiter) (e : Event) (l' : RateLimiter) : Prop :=
  l.perform e.call = .ok (e.answer, l')

/-- What a step can be: each call with what it does and answers. -/
theorem step_cases {l l' : RateLimiter} {e : Event} (h : Step l e l') :
    (∃ key now allowed, e = ⟨.allow key now, some allowed⟩ ∧ l.allow key now = .ok (allowed, l')) ∨
    (∃ key, e = ⟨.reset key, none⟩ ∧ l' = l.reset key) ∨
    (e = ⟨.clear, none⟩ ∧ l' = l.clear) ∨
    (∃ now, e = ⟨.evictStale now, none⟩ ∧ l.evictStale now = .ok l') := by
  obtain ⟨call, answer⟩ := e
  cases call with
  | allow key now =>
    cases result : l.allow key now with
    | error p => simp [Step, perform, result, Except.map] at h
    | ok r =>
      obtain ⟨rfl, rfl⟩ : some r.1 = answer ∧ r.2 = l' := by
        simpa [Step, perform, result, Except.map] using h
      exact .inl ⟨key, now, r.1, rfl, result⟩
  | reset key =>
    obtain ⟨rfl, rfl⟩ : none = answer ∧ l.reset key = l' := by simpa [Step, perform] using h
    exact .inr (.inl ⟨key, rfl, rfl⟩)
  | clear =>
    obtain ⟨rfl, rfl⟩ : none = answer ∧ l.clear = l' := by simpa [Step, perform] using h
    exact .inr (.inr (.inl ⟨rfl, rfl⟩))
  | evictStale now =>
    cases result : l.evictStale now with
    | error p => simp [Step, perform, result, Except.map] at h
    | ok r =>
      obtain ⟨rfl, rfl⟩ : none = answer ∧ r = l' := by
        simpa [Step, perform, result, Except.map] using h
      exact .inr (.inr (.inr ⟨now, rfl, result⟩))

/-- No call changes the settings. -/
theorem Step.settings {l l' : RateLimiter} {e : Event} (h : Step l e l') :
    l'.maxRequests = l.maxRequests ∧ l'.window = l.window := by
  rcases step_cases h with ⟨key, now, allowed, -, result⟩ | ⟨key, -, rfl⟩ | ⟨-, rfl⟩ |
    ⟨now, -, result⟩
  · exact ⟨(allow_decides result).maxRequests, (allow_decides result).window⟩
  · exact ⟨rfl, rfl⟩
  · exact ⟨rfl, rfl⟩
  · obtain ⟨-, -, maxRequests, window, -⟩ := evictStale_eq_ok result
    exact ⟨maxRequests, window⟩

/-- What is stored after a call was stored before it or is its own reading. -/
theorem Step.stored {l l' : RateLimiter} {e : Event} (h : Step l e l') {key : String}
    {ts : Instant} (mem : ts ∈ l'.deque key) : ts ∈ l.deque key ∨ e.call = .allow key ts := by
  rcases step_cases h with ⟨k, now, allowed, rfl, result⟩ | ⟨k, -, rfl⟩ | ⟨-, rfl⟩ |
    ⟨now, -, result⟩
  · rcases (allow_decides result).stored mem with old | ⟨rfl, rfl⟩
    · exact .inl old
    · exact .inr rfl
  · rw [reset_deque] at mem
    split at mem
    · cases mem
    · exact .inl mem
  · rw [clear_deque] at mem
    cases mem
  · obtain ⟨cutoff, -, -, -, pruned⟩ := evictStale_eq_ok result
    rw [pruned] at mem
    exact .inl (mem_newer.mp mem).1

theorem run_settings {l₀ l : RateLimiter} {hist : List Event} (run : Run Step l₀ hist l) :
    l.maxRequests = l₀.maxRequests ∧ l.window = l₀.window :=
  run.invariant (I := fun _ l => l.maxRequests = l₀.maxRequests ∧ l.window = l₀.window)
    ⟨rfl, rfl⟩ fun same hstep =>
      ⟨hstep.settings.1.trans same.1, hstep.settings.2.trans same.2⟩

/-- What is stored after a run was stored before it or is the reading of one of its
calls on the same key. -/
theorem run_stored {l₀ l : RateLimiter} {hist : List Event} (run : Run Step l₀ hist l)
    (key : String) : ∀ ts ∈ l.deque key,
      ts ∈ l₀.deque key ∨ ∃ e ∈ hist, e.call = .allow key ts := by
  refine run.invariant (I := fun hist l => ∀ ts ∈ l.deque key,
    ts ∈ l₀.deque key ∨ ∃ e ∈ hist, e.call = .allow key ts) (fun ts mem => .inl mem) ?_
  intro hist l e l' stored hstep ts mem
  rcases hstep.stored mem with old | call
  · refine (stored ts old).imp_right ?_
    rintro ⟨e', he', call⟩
    exact ⟨e', List.mem_append_left _ he', call⟩
  · exact .inr ⟨e, by simp, call⟩

/-- Performs the calls in order and records them. -/
def exec (l : RateLimiter) (calls : List Call) : Except Panic (List Event × RateLimiter) :=
  calls.foldlM (fun s call => (s.2.perform call).map fun r => (s.1 ++ [⟨call, r.1⟩], r.2)) ([], l)

/-! ## The full log -/

/-- What one returned call does to the full log of `key`. -/
def logStep (key : String) (log : List Instant) : Event → List Instant
  | ⟨.allow k now, answer⟩ => if k = key ∧ answer = some true then log ++ [now] else log
  | ⟨.reset k, _⟩ => if k = key then [] else log
  | ⟨.clear, _⟩ => []
  | ⟨.evictStale _, _⟩ => log

/-- The readings of the `allow key` calls in the history that returned true and
came after the last `reset key` or `clear`. -/
def fullLog (key : String) (hist : List Event) : List Instant := hist.foldl (logStep key) []

theorem fullLog_snoc (key : String) (hist : List Event) (e : Event) :
    fullLog key (hist ++ [e]) = logStep key (fullLog key hist) e := by
  simp [fullLog]

theorem mem_fullLog {key : String} {hist : List Event} {r : Instant} (h : r ∈ fullLog key hist) :
    ∃ e ∈ hist, e.call.reading = some r := by
  induction hist using List.reverseRecOn with
  | nil => simp [fullLog] at h
  | append_singleton hist e ih =>
    have older : r ∈ fullLog key hist → ∃ e' ∈ hist ++ [e], e'.call.reading = some r := by
      intro hr
      obtain ⟨e', mem, reading⟩ := ih hr
      exact ⟨e', List.mem_append_left _ mem, reading⟩
    obtain ⟨call, answer⟩ := e
    rw [fullLog_snoc] at h
    cases call with
    | allow k now =>
      rw [logStep] at h
      split at h
      · rcases List.mem_append.mp h with h | h
        · exact older h
        · rw [List.mem_singleton.mp h]
          exact ⟨⟨.allow k now, answer⟩, by simp, rfl⟩
      · exact older h
    | reset k =>
      rw [logStep] at h
      split at h
      · cases h
      · exact older h
    | clear => cases h
    | evictStale now => exact older h

/-! ## The invariant -/

/-- The cutoff has been reached by no reading of the history, or just so. -/
def Beyond (w : Int) (hist : List Event) (cut : Int) : Prop :=
  ∀ e ∈ hist, ∀ r, e.call.reading = some r → r.ns - w ≤ cut

theorem beyond_snoc {w cut : Int} {hist : List Event} {e : Event} :
    Beyond w (hist ++ [e]) cut ↔
      Beyond w hist cut ∧ ∀ r, e.call.reading = some r → r.ns - w ≤ cut := by
  simp only [Beyond, List.mem_append, List.mem_singleton]
  exact ⟨fun h => ⟨fun e' he' => h e' (.inl he'), h e (.inr rfl)⟩,
    fun h e' he' => he'.elim (h.1 e') fun equal => equal ▸ h.2⟩

/-- What the limiter stores against the history of its calls. -/
structure Tracks (m : Nat) (w : Duration) (hist : List Event) (l : RateLimiter) : Prop where
  maxRequests : l.maxRequests = m
  window : l.window = w
  same : ∀ key cut, Beyond w.ns hist cut → SameAbove Instant.ns cut (l.deque key) (fullLog key hist)

variable {m : Nat} {w : Duration} {hist : List Event} {l l' : RateLimiter}

theorem tracks_new {l₀ : RateLimiter} (h : new m w = .ok l₀) : Tracks m w [] l₀ := by
  obtain ⟨-, rfl⟩ := new_eq_ok h
  exact ⟨rfl, rfl, fun key cut _ => by rw [deque_empty]; exact .refl cut []⟩

theorem Tracks.allow (h : Tracks m w hist l) {key : String} {now : Instant} {answer : Bool}
    (call : l.allow key now = .ok (answer, l')) :
    Tracks m w (hist ++ [⟨.allow key now, some answer⟩]) l' := by
  obtain ⟨cutoff, sub, entry⟩ := allow_eq_ok call
  rw [h.window] at sub
  have cutoff_ns := Instant.checkedSub_ns sub
  obtain ⟨rfl, rfl⟩ : (l.allowEntry key now cutoff).1 = answer ∧
      (l.allowEntry key now cutoff).2 = l' := by rw [entry]; exact ⟨rfl, rfl⟩
  refine ⟨by simp [h.maxRequests], by simp [h.window], fun k cut beyond => ?_⟩
  obtain ⟨old, reached⟩ := beyond_snoc.mp beyond
  -- this call prunes below `cut` only, and that is all the agreement is about
  have le : cutoff.ns ≤ cut := cutoff_ns ▸ reached now rfl
  rw [fullLog_snoc, logStep]
  by_cases hk : k = key
  · subst hk
    cases admitted : (l.allowEntry k now cutoff).1 with
    | true =>
      rw [allowEntry_deque_admitted _ _ _ _ admitted, if_pos ⟨rfl, rfl⟩]
      exact ((h.same k cut old).prune_of_le le).push now
    | false =>
      rw [allowEntry_deque_refused _ _ _ _ admitted, if_neg (by simp)]
      exact (h.same k cut old).prune_of_le le
  · rw [allowEntry_deque_other _ _ _ _ hk, if_neg fun both => hk both.1.symm]
    exact h.same k cut old

theorem Tracks.reset (h : Tracks m w hist l) (key : String) :
    Tracks m w (hist ++ [⟨.reset key, none⟩]) (l.reset key) := by
  refine ⟨h.maxRequests, h.window, fun k cut beyond => ?_⟩
  rw [fullLog_snoc, logStep, reset_deque]
  by_cases hk : k = key
  · rw [if_pos hk, if_pos hk.symm]
    exact .refl cut []
  · rw [if_neg hk, if_neg (Ne.symm hk)]
    exact h.same k cut (beyond_snoc.mp beyond).1

theorem Tracks.clear (h : Tracks m w hist l) : Tracks m w (hist ++ [⟨.clear, none⟩]) l.clear := by
  refine ⟨h.maxRequests, h.window, fun k cut _ => ?_⟩
  rw [fullLog_snoc, logStep, clear_deque]
  exact .refl cut []

theorem Tracks.evictStale (h : Tracks m w hist l) {now : Instant}
    (call : l.evictStale now = .ok l') : Tracks m w (hist ++ [⟨.evictStale now, none⟩]) l' := by
  obtain ⟨cutoff, sub, maxRequests, window, pruned⟩ := evictStale_eq_ok call
  rw [h.window] at sub
  have cutoff_ns := Instant.checkedSub_ns sub
  refine ⟨maxRequests.trans h.maxRequests, window.trans h.window, fun k cut beyond => ?_⟩
  obtain ⟨old, reached⟩ := beyond_snoc.mp beyond
  have le : cutoff.ns ≤ cut := cutoff_ns ▸ reached now rfl
  rw [fullLog_snoc, logStep, pruned]
  exact (h.same k cut old).prune_of_le le

/-- Every call keeps the invariant. -/
theorem Tracks.step {e : Event} (h : Tracks m w hist l) (hstep : Step l e l') :
    Tracks m w (hist ++ [e]) l' := by
  rcases step_cases hstep with ⟨key, now, allowed, rfl, result⟩ | ⟨key, rfl, rfl⟩ | ⟨rfl, rfl⟩ |
    ⟨now, rfl, result⟩
  · exact h.allow result
  · exact h.reset key
  · exact h.clear
  · exact h.evictStale result

theorem tracks_run {l₀ : RateLimiter} (h : new m w = .ok l₀) (run : Run Step l₀ hist l) :
    Tracks m w hist l :=
  run.invariant (tracks_new h) fun tracks hstep => tracks.step hstep

/-! ## Answers -/

/-- In a state that tracks its history, `allow` counts the full log. -/
theorem Tracks.allow_answer (h : Tracks m w hist l) {key : String} {now : Instant} {answer : Bool}
    (call : l.allow key now = .ok (answer, l'))
    (ordered : ∀ e ∈ hist, ∀ r, e.call.reading = some r → r ≤ now) :
    answer = true ↔ (inWindow Instant.ns w.ns now.ns (fullLog key hist)).length < m := by
  obtain ⟨cutoff, sub, entry⟩ := allow_eq_ok call
  rw [h.window] at sub
  have cutoff_ns := Instant.checkedSub_ns sub
  have beyond : Beyond w.ns hist cutoff.ns := by
    intro e he r reading
    have := Instant.le_iff_ns.mp (ordered e he r reading)
    omega
  have same : newer Instant.ns cutoff.ns (l.deque key) =
      newer Instant.ns cutoff.ns (fullLog key hist) := h.same key _ beyond
  -- nothing in the log is newer than `now`, so the upper end of the window cuts nothing
  have window : inWindow Instant.ns w.ns now.ns (fullLog key hist) =
      newer Instant.ns cutoff.ns (fullLog key hist) := by
    refine List.filter_congr fun r hr => ?_
    obtain ⟨e, he, reading⟩ := mem_fullLog hr
    have := Instant.le_iff_ns.mp (ordered e he r reading)
    simp [cutoff_ns, this]
  have := l.allowEntry_admits key now cutoff
  rw [entry, h.maxRequests, same] at this
  rw [window]
  exact this

theorem perform_isOk (l : RateLimiter) (call : Call)
    (fits : ∀ now, call.reading = some now → (now.checkedSub l.window).isSome) :
    ∃ r, l.perform call = .ok r := by
  cases call with
  | allow key now =>
    obtain ⟨cutoff, found⟩ := Option.isSome_iff_exists.mp (fits now rfl)
    exact ⟨_, by simp only [perform, RateLimiter.allow, found]; rfl⟩
  | reset key => exact ⟨_, rfl⟩
  | clear => exact ⟨_, rfl⟩
  | evictStale now =>
    obtain ⟨cutoff, found⟩ := Option.isSome_iff_exists.mp (fits now rfl)
    exact ⟨_, by simp only [perform, RateLimiter.evictStale, found]; rfl⟩

/-- Calls whose cutoffs are representable all return, and make a run. -/
theorem exec_run {l₀ : RateLimiter} (h : new m w = .ok l₀) (calls : List Call)
    (fits : ∀ now ∈ readings calls, (now.checkedSub w).isSome) :
    ∃ hist l, exec l₀ calls = .ok (hist, l) ∧ Run Step l₀ hist l ∧ hist.map Event.call = calls := by
  induction calls using List.reverseRecOn with
  | nil => exact ⟨[], l₀, rfl, .nil, rfl⟩
  | append_singleton calls call ih =>
    simp only [readings, List.filterMap_append, List.mem_append] at fits
    obtain ⟨hist, l, done, run, same⟩ := ih fun now hnow => fits now (.inl hnow)
    have window := (tracks_run h run).window
    obtain ⟨⟨answer, l'⟩, performed⟩ := l.perform_isOk call fun now reading => by
      rw [window]
      exact fits now (.inr (by simp [reading]))
    have hstep : Step l ⟨call, answer⟩ l' := performed
    refine ⟨hist ++ [⟨call, answer⟩], l', ?_, run.snoc hstep, by simp [same]⟩
    unfold exec at done ⊢
    rw [List.foldlM_append, done]
    simp only [List.foldlM_cons, List.foldlM_nil, bind_pure]
    show (l.perform call).map _ = _
    rw [performed]
    rfl

/-- Calls whose cutoffs are representable, performed one after another at
readings that never go back, all return; and each `allow key` among them answers
true exactly when fewer than `m` readings of the full log of `key` at that moment
lie in `(now - w, now]`. -/
theorem allow_exact {l₀ : RateLimiter} (h : new m w = .ok l₀) (calls : List Call)
    (fits : ∀ now ∈ readings calls, (now.checkedSub w).isSome)
    (ordered : (readings calls).Pairwise (· ≤ ·)) :
    ∃ hist l, exec l₀ calls = .ok (hist, l) ∧ hist.map Event.call = calls ∧
      ∀ before key now answer after, hist = before ++ ⟨.allow key now, answer⟩ :: after →
        ∃ allowed, answer = some allowed ∧
          (allowed = true ↔ (inWindow Instant.ns w.ns now.ns (fullLog key before)).length < m) := by
  obtain ⟨hist, l, done, run, same⟩ := exec_run h calls fits
  refine ⟨hist, l, done, same, fun before key now answer after split => ?_⟩
  obtain ⟨mid, next, start, hstep⟩ := run.cut before _ after split
  have earlier : ∀ e ∈ before, ∀ r, e.call.reading = some r → r ≤ now := by
    intro e he r reading
    rw [← same, split, readings, List.map_append, List.filterMap_append, List.pairwise_append]
      at ordered
    refine ordered.2.2 r ?_ now (by simp [Call.reading])
    exact List.mem_filterMap.mpr ⟨e.call, List.mem_map_of_mem he, reading⟩
  rcases step_cases hstep with ⟨k, r, allowed, equal, result⟩ | ⟨k, equal, -⟩ | ⟨equal, -⟩ |
    ⟨r, equal, -⟩
  · cases equal
    exact ⟨allowed, rfl, (tracks_run h start).allow_answer result earlier⟩
  all_goals cases equal

/-- Two requests, an eviction and a third request at the reading where the first
one has just left the window of ten seconds. -/
theorem allow_exact_boundary :
    ∃ hist l, exec ⟨2, .fromSecs 10, ∅⟩ [.allow "a" (.ofSecs 100 (by decide)),
        .allow "a" (.ofSecs 105 (by decide)), .evictStale (.ofSecs 109 (by decide)),
        .allow "a" (.ofSecs 110 (by decide))] = .ok (hist, l) ∧
      hist.map Event.call = [.allow "a" (.ofSecs 100 (by decide)),
        .allow "a" (.ofSecs 105 (by decide)), .evictStale (.ofSecs 109 (by decide)),
        .allow "a" (.ofSecs 110 (by decide))] ∧
      ∀ before key now answer after, hist = before ++ ⟨.allow key now, answer⟩ :: after →
        ∃ allowed, answer = some allowed ∧ (allowed = true ↔
          (inWindow Instant.ns (Duration.fromSecs 10).ns now.ns (fullLog key before)).length < 2) :=
  allow_exact rfl _ (by decide) (by decide)

end RateLimiter

end SimplyProxy
