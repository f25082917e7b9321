import Mathlib.Data.List.DropRight
import Mathlib.Data.Set.Card
import Mathlib.Logic.Function.Basic
import SimplyProxy.Base.Run
import SimplyProxy.RateLimit.Sequential

/-!
# The entries under interleaved calls

All four operations take `&self` and may run on any number of threads. A call first
samples the clock, if it takes a reading. Later it takes the entry of a key and acts
on it while it holds it: `allow` and `reset` the entry of their own key, `clear` and
`evict_stale` the entry of one key after the other. Between any two of these steps
other calls may take theirs.

`tracked_wellFormed`: in every state that such steps lead to, the deque of a tracked
key holds between one and `max_requests` timestamps, which are readings of admitted
calls since the key was last reset. An `evict_stale` that no other call interrupts
leaves exactly the timestamps that are newer than its cutoff.

The invariant is `Represents`, of the entries against what was done to them. The visits
of an `evict_stale`, taken alone, can always run to the end (`exists_visitAll`), and do
what `evictStale` does at once (`visitAll_evictStale`).
-/

namespace SimplyProxy
namespace RateLimiter.Interleaved
open SlidingWindow Runs

/-! ## Steps -/

/-- A call that has begun. One that acts on all keys has acted on the `visited` ones. -/
inductive Pending
  | allow (key : String) (now cutoff : Instant)
  | reset (key : String)
  | clear (visited : List String)
  | evictStale (cutoff : Instant) (visited : List String)

/-- What one call did to the entry of one key. -/
inductive Effect
  | decided (key : String) (now : Instant) (allowed : Bool)
  /-- A `reset` or a `clear`. -/
  | wiped (key : String)
  | pruned (key : String)
deriving DecidableEq

/-- `effects` records what was done, in order; no step reads it. -/
structure State where
  limiter : RateLimiter
  clock : Instant
  pending : Nat → Option Pending
  effects : List Effect

inductive Action
  /-- A thread makes a call and samples the clock, if the call takes a reading. -/
  | call (thread : Nat) (call : Call)
  /-- A thread takes the entry of the key. -/
  | enter (thread : Nat) (key : String)
  /-- A thread has acted on all keys. -/
  | finish (thread : Nat)

def start (limiter : RateLimiter) (clock : Instant) : State := ⟨limiter, clock, fun _ => none, []⟩

/-- A call behind its sample. One whose cutoff is not representable has panicked. -/
def begun (window : Duration) : Call → Option Pending
  | .allow key now => (now.checkedSub window).map (.allow key now)
  | .reset key => some (.reset key)
  | .clear => some (.clear [])
  | .evictStale now => (now.checkedSub window).map (.evictStale · [])

/-- The visit of `evict_stale` to the entry of one key. -/
def evictAt (cutoff : Instant) (self : RateLimiter) (key : String) : RateLimiter :=
  { self with entries := self.entries.retainAt (evictEntry cutoff) key }

/-- What a pending call does with the entry of `key`, and what is left of the call; `none`
when it does not take this entry. -/
def Pending.enter (l : RateLimiter) (key : String) :
    Pending → Option (RateLimiter × Option Pending × Effect)
  | .allow own now cutoff =>
    if own = key then
      some ((l.allowEntry key now cutoff).2, none,
        .decided key now (l.allowEntry key now cutoff).1)
    else none
  | .reset own => if own = key then some (l.reset key, none, .wiped key) else none
  | .clear visited =>
    if key ∈ visited then none
    else some (l.reset key, some (.clear (key :: visited)), .wiped key)
  | .evictStale cutoff visited =>
    if key ∈ visited then none
    else some (evictAt cutoff l key, some (.evictStale cutoff (key :: visited)), .pruned key)

/-- The keys that a pending call on all keys has acted on. -/
def Pending.visited : Pending → Option (List String)
  | .allow _ _ _ => none
  | .reset _ => none
  | .clear visited => some visited
  | .evictStale _ visited => some visited

/-- One atomic step; `none` when it is not possible in this state. -/
def step (s : State) : Action → Option State
  | .call thread call =>
    if s.pending thread = none ∧ ∀ now ∈ call.reading, s.clock ≤ now then
      some { s with
        clock := call.reading.getD s.clock
        pending := Function.update s.pending thread (begun s.limiter.window call) }
    else none
  | .enter thread key =>
    match (s.pending thread).bind (Pending.enter s.limiter key) with
    | none => none
    | some (limiter, left, effect) => some { s with
        limiter := limiter
        pending := Function.update s.pending thread left
        effects := s.effects ++ [effect] }
  | .finish thread =>
    match (s.pending thread).bind Pending.visited with
    | none => none
    | some visited =>
      -- an entry that is tracked and has not been visited is still to come
      if ∀ key ∈ s.limiter.entries.keys, key ∈ visited then
        some { s with pending := Function.update s.pending thread none }
      else none

def exec (s : State) (actions : List Action) : Option State := actions.foldlM step s

/-! ## The invariant -/

/-- What was done since the last `reset` or `clear` took effect on the key. -/
def sinceWiped (key : String) (effects : List Effect) : List Effect :=
  effects.rtakeWhile fun effect => effect ≠ .wiped key

/-- The timestamps as admitted calls of the key. -/
def admissions (key : String) (deque : List Instant) : List Effect :=
  deque.map fun now => .decided key now true

/-- The entries against what was done to them. That the admissions are a sublist says that
each timestamp is the reading of a call of its own. -/
structure Represents (m : Nat) (effects : List Effect) (l : RateLimiter) : Prop where
  maxRequests : l.maxRequests = m
  filled : ∀ key ∈ l.entries, l.deque key ≠ []
  bounded : ∀ key, (l.deque key).length ≤ m
  traced : ∀ key, (admissions key (l.deque key)).Sublist (sinceWiped key effects)

variable {m : Nat} {effects : List Effect} {l : RateLimiter}

theorem sinceWiped_snoc {key : String} {effect : Effect} (kept : effect ≠ .wiped key)
    (effects : List Effect) :
    sinceWiped key (effects ++ [effect]) = sinceWiped key effects ++ [effect] :=
  List.rtakeWhile_concat_pos _ _ _ (by simpa using kept)

/-- Dropping timestamps, and any effect but a wipe of the key. -/
theorem traced_snoc {key : String} {deque deque' : List Instant} {effect : Effect}
    (traced : (admissions key deque).Sublist (sinceWiped key effects))
    (kept : effect ≠ .wiped key) (pruned : deque'.Sublist deque) :
    (admissions key deque').Sublist (sinceWiped key (effects ++ [effect])) := by
  rw [sinceWiped_snoc kept]
  exact ((pruned.map _).trans traced).trans (List.sublist_append_left _ _)

/-- A reading is stored with its admission. -/
theorem traced_push {key : String} {deque : List Instant} {now : Instant}
    (traced : (admissions key deque).Sublist (sinceWiped key effects)) :
    (admissions key (deque ++ [now])).Sublist
      (sinceWiped key (effects ++ [.decided key now true])) := by
  rw [sinceWiped_snoc (by simp), admissions, List.map_append]
  exact traced.append (.refl _)

theorem represents_new {w : Duration} (h : new m w = .ok l) : Represents m [] l := by
  obtain ⟨-, rfl⟩ := new_eq_ok h
  refine ⟨rfl, fun key tracked => ?_, fun key => by simp, fun key => by simp [admissions]⟩
  exact absurd tracked (AList.notMem_empty key)

/-- An effect on the entry of one key, and on no other. -/
theorem Represents.snoc (h : Represents m effects l) (key : String) {effect : Effect}
    {l' : RateLimiter} (settings : l'.maxRequests = l.maxRequests)
    (others : ∀ other, other ≠ key → l'.entries.get other = l.entries.get other)
    (elsewhere : ∀ other, other ≠ key → effect ≠ .wiped other)
    (filled : key ∈ l'.entries → l'.deque key ≠ []) (bounded : (l'.deque key).length ≤ m)
    (traced : (admissions key (l'.deque key)).Sublist (sinceWiped key (effects ++ [effect]))) :
    Represents m (effects ++ [effect]) l' := by
  have same : ∀ other, other ≠ key → l'.deque other = l.deque other := fun other apart => by
    rw [deque, others other apart, deque]
  refine ⟨settings.trans h.maxRequests, fun other tracked => ?_, fun other => ?_, fun other => ?_⟩
  · by_cases own : other = key
    · exact own ▸ filled (own ▸ tracked)
    · rw [same other own]
      rw [KeyMap.mem_iff_get, others other own, ← KeyMap.mem_iff_get] at tracked
      exact h.filled other tracked
  · by_cases own : other = key
    · exact own ▸ bounded
    · exact same other own ▸ h.bounded other
  · by_cases own : other = key
    · exact own ▸ traced
    · rw [same other own]
      exact traced_snoc (h.traced other) (elsewhere other own) (.refl _)

/-- `allow` on its entry. The entry it leaves is not empty: when no room is left, there is
something in it, since at least one request is to be admitted. -/
theorem Represents.decided (h : Represents m effects l) (pos : 0 < m) (key : String)
    (now cutoff : Instant) :
    Represents m (effects ++ [.decided key now (l.allowEntry key now cutoff).1])
      (l.allowEntry key now cutoff).2 := by
  have admits := l.allowEntry_admits key now cutoff
  rw [h.maxRequests] at admits
  have pruned := newer_sublist Instant.ns cutoff.ns (l.deque key)
  refine h.snoc key (by simp) (fun other => allowEntry_get_other l key now cutoff)
    (by simp) (fun _ => ?_) ?_ ?_
  all_goals cases answer : (l.allowEntry key now cutoff).1
  · have full := Nat.le_of_not_lt (mt admits.mpr (by simp [answer]))
    rw [allowEntry_deque_refused _ _ _ _ answer]
    exact List.ne_nil_of_length_pos (Nat.lt_of_lt_of_le pos full)
  · rw [allowEntry_deque_admitted _ _ _ _ answer]
    simp
  · rw [allowEntry_deque_refused _ _ _ _ answer]
    exact pruned.length_le.trans (h.bounded key)
  · rw [allowEntry_deque_admitted _ _ _ _ answer, List.length_append]
    exact admits.mp answer
  · rw [allowEntry_deque_refused _ _ _ _ answer]
    exact traced_snoc (h.traced key) (by simp) pruned
  · rw [allowEntry_deque_admitted _ _ _ _ answer]
    exact traced_push ((pruned.map _).trans (h.traced key))

/-- `reset` on its entry, and `clear` on any. -/
theorem Represents.wiped (h : Represents m effects l) (key : String) :
    Represents m (effects ++ [.wiped key]) (l.reset key) := by
  have empty : (l.reset key).deque key = [] := by simp
  refine h.snoc key rfl (fun other apart => ?_) (fun other apart => ?_)
    (fun tracked => ?_) ?_ ?_
  · rw [reset, KeyMap.get_erase, if_neg apart]
  · simpa using Ne.symm apart
  · exact absurd rfl (AList.mem_erase.mp tracked).1
  · rw [empty]
    exact Nat.zero_le m
  · rw [empty]
    exact List.nil_sublist _

theorem evictAt_get (cutoff : Instant) (l : RateLimiter) (key other : String) :
    (evictAt cutoff l key).entries.get other =
      if other = key then (l.entries.get key).bind (evictEntry cutoff key)
      else l.entries.get other :=
  KeyMap.get_retainAt _ _ _ _

/-- `evict_stale` on any entry. -/
theorem Represents.pruned (h : Represents m effects l) (cutoff : Instant) (key : String) :
    Represents m (effects ++ [.pruned key]) (evictAt cutoff l key) := by
  have own : (evictAt cutoff l key).deque key = newer Instant.ns cutoff.ns (l.deque key) := by
    rw [deque, evictAt_get, if_pos rfl]
    exact getD_bind_evictEntry cutoff key _
  have pruned := newer_sublist Instant.ns cutoff.ns (l.deque key)
  refine h.snoc key rfl (fun other apart => ?_) (by simp) (fun tracked => ?_) ?_ ?_
  · rw [evictAt_get, if_neg apart]
  · obtain ⟨v, found⟩ := KeyMap.mem_iff_get.mp tracked
    rw [deque, found, Option.getD_some]
    rw [evictAt_get, if_pos rfl] at found
    obtain ⟨_, _, kept⟩ := Option.bind_eq_some_iff.mp found
    exact ne_nil_of_evictEntry kept
  · rw [own]
    exact pruned.length_le.trans (h.bounded key)
  · rw [own]
    exact traced_snoc (h.traced key) (by simp) pruned

/-! ## Every run -/

/-- What taking an entry can be: a decision of `allow`, a wipe or a visit of `evict_stale`. -/
theorem enter_cases {call : Pending} {key : String} {l' : RateLimiter} {left : Option Pending}
    {effect : Effect} (h : call.enter l key = some (l', left, effect)) :
    (∃ now cutoff, effect = .decided key now (l.allowEntry key now cutoff).1 ∧
      l' = (l.allowEntry key now cutoff).2) ∨
    (effect = .wiped key ∧ l' = l.reset key) ∨
    (∃ cutoff, effect = .pruned key ∧ l' = evictAt cutoff l key) := by
  cases call with
  | allow own now cutoff =>
    simp only [Pending.enter, Option.ite_none_right_eq_some, Option.some.injEq,
      Prod.mk.injEq] at h
    obtain ⟨-, rfl, -, rfl⟩ := h
    exact .inl ⟨now, cutoff, rfl, rfl⟩
  | reset own =>
    simp only [Pending.enter, Option.ite_none_right_eq_some, Option.some.injEq,
      Prod.mk.injEq] at h
    obtain ⟨-, rfl, -, rfl⟩ := h
    exact .inr (.inl ⟨rfl, rfl⟩)
  | clear visited =>
    simp only [Pending.enter, Option.ite_none_left_eq_some, Option.some.injEq,
      Prod.mk.injEq] at h
    obtain ⟨-, rfl, -, rfl⟩ := h
    exact .inr (.inl ⟨rfl, rfl⟩)
  | evictStale cutoff visited =>
    simp only [Pending.enter, Option.ite_none_left_eq_some, Option.some.injEq,
      Prod.mk.injEq] at h
    obtain ⟨-, rfl, -, rfl⟩ := h
    exact .inr (.inr ⟨cutoff, rfl, rfl⟩)

/-- What a step can be: one that leaves the limiter alone, or one that takes an entry. -/
theorem step_cases {s s' : State} {action : Action} (h : step s action = some s') :
    (s'.limiter = s.limiter ∧ s'.effects = s.effects) ∨
    ∃ call key left effect, Pending.enter s.limiter key call = some (s'.limiter, left, effect) ∧
      s'.effects = s.effects ++ [effect] := by
  cases action with
  | call thread call =>
    simp only [step, Option.ite_none_right_eq_some, Option.some.injEq] at h
    obtain ⟨-, rfl⟩ := h
    exact .inl ⟨rfl, rfl⟩
  | enter thread key =>
    simp only [step] at h
    split at h
    · cases h
    · next limiter left effect entered =>
      obtain rfl := Option.some.inj h
      obtain ⟨call, -, entered⟩ := Option.bind_eq_some_iff.mp entered
      exact .inr ⟨call, key, left, effect, entered, rfl⟩
  | finish thread =>
    simp only [step] at h
    split at h
    · cases h
    · obtain ⟨-, h⟩ := Option.ite_none_right_eq_some.mp h
      obtain rfl := Option.some.inj h
      exact .inl ⟨rfl, rfl⟩

/-- Every step keeps the invariant. -/
theorem Represents.step {s s' : State} (h : Represents m s.effects s.limiter) (pos : 0 < m)
    {action : Action} (hstep : step s action = some s') : Represents m s'.effects s'.limiter := by
  rcases step_cases hstep with ⟨limiter, effects⟩ | ⟨call, key, left, effect, entered, effects⟩
  · rw [limiter, effects]
    exact h
  · rw [effects]
    rcases enter_cases entered with ⟨now, cutoff, rfl, limiter⟩ | ⟨rfl, limiter⟩ |
      ⟨cutoff, rfl, limiter⟩
    · rw [limiter]
      exact h.decided pos key now cutoff
    · rw [limiter]
      exact h.wiped key
    · rw [limiter]
      exact h.pruned cutoff key

theorem represents_exec {w : Duration} {l₀ : RateLimiter} (h : new m w = .ok l₀) {clock : Instant}
    {actions : List Action} {s : State} (run : exec (start l₀ clock) actions = some s) :
    Represents m s.effects s.limiter :=
  (Run.of_foldlM run).invariant (I := fun _ s => Represents m s.effects s.limiter)
    (represents_new h) fun inv hstep => inv.step (new_eq_ok h).1 hstep

/-! ## `evict_stale` alone -/

/-- The visits of a call, in any order of the keys, with no step of another thread in
between. -/
def visitAll (thread : Nat) (visits : List String) : List Action :=
  visits.map (.enter thread) ++ [.finish thread]

theorem exec_cons (s : State) (action : Action) (rest : List Action) :
    exec s (action :: rest) = (step s action).bind fun next => exec next rest :=
  List.foldlM_cons

theorem exec_append (s : State) (actions rest : List Action) :
    exec s (actions ++ rest) = (exec s actions).bind fun next => exec next rest :=
  List.foldlM_append

theorem exec_singleton (s : State) (action : Action) : exec s [action] = step s action := by
  rw [exec_cons]
  cases step s action <;> rfl

/-- The visits of one call: each key once, and nothing but visits. -/
theorem exec_visits {thread : Nat} {cutoff : Instant} {visits visited : List String} {s s' : State}
    (pending : s.pending thread = some (.evictStale cutoff visited))
    (run : exec s (visits.map (.enter thread)) = some s') :
    visits.Nodup ∧ (∀ key ∈ visits, key ∉ visited) ∧
      s'.limiter = visits.foldl (evictAt cutoff) s.limiter ∧
      s'.pending thread = some (.evictStale cutoff (visits.reverse ++ visited)) := by
  induction visits generalizing s visited with
  | nil =>
    obtain rfl : s = s' := by simpa [exec] using run
    exact ⟨.nil, by simp, rfl, pending⟩
  | cons key visits ih =>
    rw [List.map_cons, exec_cons, Option.bind_eq_some_iff] at run
    obtain ⟨next, first, run⟩ := run
    simp only [step, pending, Option.bind_some, Pending.enter] at first
    by_cases old : key ∈ visited
    · simp [old] at first
    · simp only [old, if_false, Option.some.injEq] at first
      subst first
      obtain ⟨once, fresh, limiter, left⟩ := ih (by exact Function.update_self _ _ _) run
      refine ⟨List.nodup_cons.mpr ⟨fun mem => ?_, once⟩, ?_, limiter, ?_⟩
      · exact fresh key mem (by simp)
      · exact List.forall_mem_cons.mpr ⟨old, fun k mem seen => fresh k mem (by simp [seen])⟩
      · rw [left, List.reverse_cons, List.append_assoc, List.singleton_append]

theorem foldl_evictAt_entries (cutoff : Instant) (visits : List String) (l : RateLimiter) :
    (visits.foldl (evictAt cutoff) l).entries =
      visits.foldl (KeyMap.retainAt (evictEntry cutoff)) l.entries :=
  (List.foldl_hom RateLimiter.entries fun _ _ => rfl).symm

theorem step_call {s s' : State} {thread : Nat} {call : Call}
    (h : step s (.call thread call) = some s') :
    s'.limiter = s.limiter ∧ s'.pending thread = begun s.limiter.window call := by
  simp only [step, Option.ite_none_right_eq_some, Option.some.injEq] at h
  obtain ⟨-, rfl⟩ := h
  exact ⟨rfl, Function.update_self _ _ _⟩

/-- A call finishes when it has visited all that is tracked. -/
theorem step_finish {s s' : State} {thread : Nat} (h : step s (.finish thread) = some s') :
    s'.limiter = s.limiter ∧ ∃ call visited, s.pending thread = some call ∧
      call.visited = some visited ∧ ∀ key ∈ s.limiter.entries, key ∈ visited := by
  simp only [step] at h
  split at h
  · cases h
  · next visited pending =>
    obtain ⟨all, h⟩ := Option.ite_none_right_eq_some.mp h
    obtain rfl := Option.some.inj h
    obtain ⟨call, held, acted⟩ := Option.bind_eq_some_iff.mp pending
    exact ⟨rfl, call, visited, held, acted, fun key tracked => all key tracked⟩

/-- The visits leave what `retain` leaves. -/
theorem visitAll_retain {thread : Nat} {cutoff : Instant} {visits : List String} {s s' : State}
    (pending : s.pending thread = some (.evictStale cutoff []))
    (run : exec s (visitAll thread visits) = some s') (key : String) :
    s'.limiter.entries.get key = (s.limiter.entries.retain (evictEntry cutoff)).get key := by
  rw [visitAll, exec_append, Option.bind_eq_some_iff] at run
  obtain ⟨mid, visiting, finished⟩ := run
  rw [exec_singleton] at finished
  obtain ⟨once, -, limiter, left⟩ := exec_visits pending visiting
  obtain ⟨unchanged, call, visited, held, acted, all⟩ := step_finish finished
  obtain rfl := Option.some.inj (left.symm.trans held)
  obtain rfl := Option.some.inj acted
  rw [limiter, foldl_evictAt_entries] at all
  rw [unchanged, limiter, foldl_evictAt_entries]
  refine KeyMap.get_foldl_retainAt_of_forall_mem _ once (fun k tracked => ?_) key
  simpa using all k tracked

/-- A call and its visits do what `evictStale` does at once. -/
theorem visitAll_evictStale {thread : Nat} {now : Instant} {l' : RateLimiter}
    {visits : List String} {s mid s' : State} (evicted : s.limiter.evictStale now = .ok l')
    (called : step s (.call thread (.evictStale now)) = some mid)
    (run : exec mid (visitAll thread visits) = some s') (key : String) :
    s'.limiter.entries.get key = l'.entries.get key := by
  obtain ⟨same, pending⟩ := step_call called
  unfold evictStale at evicted
  split at evicted
  · cases evicted
  · next cutoff sub =>
    obtain rfl := Except.ok.inj evicted
    rw [begun, sub, Option.map_some] at pending
    rw [visitAll_retain pending run, same]

/-- What is tracked after the visits, and with which timestamps. -/
theorem visitAll_deque {thread : Nat} {cutoff : Instant} {visits : List String} {s s' : State}
    (pending : s.pending thread = some (.evictStale cutoff []))
    (run : exec s (visitAll thread visits) = some s') :
    (∀ key, key ∈ s'.limiter.entries ↔ ∃ ts ∈ s.limiter.deque key, cutoff < ts) ∧
      ∀ key, s'.limiter.deque key = (s.limiter.deque key).filter fun ts => cutoff < ts := by
  have same := visitAll_retain pending run
  have pruned : ∀ key, s'.limiter.deque key =
      (s.limiter.deque key).filter fun ts => cutoff < ts := fun key => by
    rw [deque, same, KeyMap.get_retain, getD_bind_evictEntry]
    exact (filter_gt_eq_newer cutoff _).symm
  refine ⟨fun key => ?_, pruned⟩
  have left : (∃ ts ∈ s.limiter.deque key, cutoff < ts) ↔ s'.limiter.deque key ≠ [] := by
    rw [pruned, Ne, List.filter_eq_nil_iff]
    simp
  rw [left, KeyMap.mem_iff_get, deque]
  constructor
  · rintro ⟨v, found⟩
    have kept := found
    rw [same, KeyMap.get_retain] at kept
    obtain ⟨_, _, kept⟩ := Option.bind_eq_some_iff.mp kept
    rw [found, Option.getD_some]
    exact ne_nil_of_evictEntry kept
  · intro nonempty
    cases found : s'.limiter.entries.get key with
    | none => exact absurd (by rw [found]; rfl) nonempty
    | some v => exact ⟨v, rfl⟩

theorem exists_exec_visits {thread : Nat} {cutoff : Instant} {visits visited : List String}
    {s : State} (pending : s.pending thread = some (.evictStale cutoff visited))
    (once : visits.Nodup) (fresh : ∀ key ∈ visits, key ∉ visited) :
    ∃ s', exec s (visits.map (.enter thread)) = some s' := by
  induction visits generalizing s visited with
  | nil => exact ⟨s, rfl⟩
  | cons key visits ih =>
    obtain ⟨new, once⟩ := List.nodup_cons.mp once
    obtain ⟨first, fresh⟩ := List.forall_mem_cons.mp fresh
    rw [List.map_cons, exec_cons]
    simp only [step, pending, Option.bind_some, Pending.enter, first, if_false]
    refine ih (by exact Function.update_self _ _ _) once fun k mem => ?_
    rw [List.mem_cons, not_or]
    exact ⟨fun same => new (same ▸ mem), fresh k mem⟩

/-- In every state the visits of a call that has begun can run to the end. -/
theorem exists_visitAll {thread : Nat} {cutoff : Instant} {s : State}
    (pending : s.pending thread = some (.evictStale cutoff [])) :
    ∃ s', exec s (visitAll thread s.limiter.entries.keys) = some s' := by
  have once : s.limiter.entries.keys.Nodup := s.limiter.entries.keys_nodup
  obtain ⟨mid, visiting⟩ := exists_exec_visits pending once (by simp)
  obtain ⟨-, -, limiter, left⟩ := exec_visits pending visiting
  -- what is tracked behind the visits was tracked before
  have all : ∀ key ∈ mid.limiter.entries.keys, key ∈ s.limiter.entries.keys := by
    intro key tracked
    obtain ⟨v, found⟩ := KeyMap.mem_iff_get.mp (AList.mem_keys.mpr tracked)
    rw [limiter, foldl_evictAt_entries, KeyMap.get_foldl_retainAt _ once] at found
    by_contra untracked
    rw [if_neg untracked] at found
    exact untracked (AList.mem_keys.mp (KeyMap.mem_iff_get.mpr ⟨v, found⟩))
  rw [visitAll, exec_append, visiting, Option.bind_some, exec_singleton]
  simp only [step, left, Option.bind_some, Pending.visited, List.append_nil, List.mem_reverse]
  exact ⟨_, if_pos all⟩

theorem keyCount_eq_ncard (l : RateLimiter) : l.keyCount = {key | key ∈ l.entries}.ncard := by
  have keys : {key | key ∈ l.entries} = (l.entries.keys.toFinset : Set String) := by
    ext key
    simp [AList.mem_keys]
  rw [keys, Set.ncard_coe_finset, List.toFinset_card_of_nodup l.entries.keys_nodup]
  simp [keyCount, AList.keys, List.keys]

/-- In every state that steps in any order lead to: the deque of a tracked key has between
one and `max_requests` timestamps, each the reading of an admitted call of its own that
came after the last `reset` or `clear` of the key. And a call of `evict_stale` that visits
all entries with no other call in between leaves the keys with a timestamp newer than its
cutoff, each with these timestamps. -/
theorem tracked_wellFormed {w : Duration} {l₀ : RateLimiter} (h : new m w = .ok l₀)
    {clock : Instant} {actions : List Action} {s : State}
    (run : exec (start l₀ clock) actions = some s) :
    (∀ key ∈ s.limiter.entries,
      1 ≤ (s.limiter.deque key).length ∧ (s.limiter.deque key).length ≤ m ∧
        (admissions key (s.limiter.deque key)).Sublist (sinceWiped key s.effects)) ∧
    ∀ thread cutoff visits s', s.pending thread = some (.evictStale cutoff []) →
      exec s (visitAll thread visits) = some s' →
        (∀ key, key ∈ s'.limiter.entries ↔ ∃ ts ∈ s.limiter.deque key, cutoff < ts) ∧
        (∀ key, s'.limiter.deque key = (s.limiter.deque key).filter fun ts => cutoff < ts) ∧
        s'.limiter.keyCount = {key | ∃ ts ∈ s.limiter.deque key, cutoff < ts}.ncard := by
  have represents := represents_exec h run
  refine ⟨fun key tracked => ?_, fun thread cutoff visits s' pending visiting => ?_⟩
  · exact ⟨List.length_pos_iff.mpr (represents.filled key tracked), represents.bounded key,
      represents.traced key⟩
  · obtain ⟨tracked, pruned⟩ := visitAll_deque pending visiting
    refine ⟨tracked, pruned, ?_⟩
    rw [keyCount_eq_ncard]
    simp only [tracked]

/-- A thread samples at 200 for `a` and another at 205 for `b`, and the other acts first. A
third one samples at 212 to evict. -/
def twoKeys : List Action :=
  [.call 0 (.allow "a" (.ofSecs 200 (by decide))), .call 1 (.allow "b" (.ofSecs 205 (by decide))),
    .enter 1 "b", .enter 0 "a", .call 2 (.evictStale (.ofSecs 212 (by decide)))]

theorem tracked_wellFormed_two :
    ∃ s s', exec (start ⟨2, .fromSecs 10, ∅⟩ (.ofSecs 200 (by decide))) twoKeys = some s ∧
      exec s (visitAll 2 ["a", "b"]) = some s' ∧
      (∀ key ∈ s.limiter.entries,
        1 ≤ (s.limiter.deque key).length ∧ (s.limiter.deque key).length ≤ 2 ∧
          (admissions key (s.limiter.deque key)).Sublist (sinceWiped key s.effects)) ∧
      ∃ cutoff, s.pending 2 = some (.evictStale cutoff []) ∧
        s'.limiter.keyCount = {key | ∃ ts ∈ s.limiter.deque key, cutoff < ts}.ncard := by
  have both : (exec (start ⟨2, .fromSecs 10, ∅⟩ (.ofSecs 200 (by decide)))
      (twoKeys ++ visitAll 2 ["a", "b"])).isSome := by decide
  rw [exec_append] at both
  obtain ⟨s', run⟩ := Option.isSome_iff_exists.mp both
  obtain ⟨s, first, visiting⟩ := Option.bind_eq_some_iff.mp run
  obtain ⟨cutoff, pending⟩ : ∃ cutoff, s.pending 2 = some (.evictStale cutoff []) := by
    cases first
    exact ⟨_, rfl⟩
  have new : new 2 (.fromSecs 10) = .ok ⟨2, .fromSecs 10, ∅⟩ := rfl
  obtain ⟨tracked, evicted⟩ := tracked_wellFormed new first
  exact ⟨s, s', first, visiting, tracked, cutoff, pending,
    (evicted 2 cutoff _ s' pending visiting).2.2⟩

end RateLimiter.Interleaved

end SimplyProxy
