import SimplyProxy.Base.KeyMap
import SimplyProxy.Base.SlidingWindow
import SimplyProxy.Platform.Outcome
import SimplyProxy.Platform.Time

/-!
# The rate limiter

`RateLimiter` as in `rate_limit/limiter.rs`. The clock is read by the caller: the
reading `now` of `Instant::now()` is an argument of the operations that take it.

`allow` is split where the code takes the entry of the key: first the clock and
the cutoff, then `allowEntry`, which runs while the entry is held exclusively.

The lemmas describe each operation by what it does to `deque key`, the timestamps
stored for a key, in the words of `SlidingWindow`.
-/

namespace SimplyProxy
open SlidingWindow

/-- A sliding-window rate limiter: for each key the timestamps of its requests. -/
structure RateLimiter where
  maxRequests : Nat
  window : Duration
  entries : KeyMap String (List Instant)

namespace RateLimiter

def new (maxRequests : Nat) (window : Duration) : Except Panic RateLimiter :=
  if maxRequests > 0 then .ok ⟨maxRequests, window, ∅⟩ else .error .maxRequestsZero

/-- The part of `allow` that runs on the locked entry of `key`. -/
def allowEntry (self : RateLimiter) (key : String) (now cutoff : Instant) : Bool × RateLimiter :=
  let entry := (self.entries.get key).getD []
  let entry := entry.filter fun ts => ts > cutoff
  if entry.length < self.maxRequests then
    (true, { self with entries := self.entries.insert key (entry ++ [now]) })
  else
    (false, { self with entries := self.entries.insert key entry })

/-- Whether the request identified by `key` is allowed, and the limiter after it. -/
def allow (self : RateLimiter) (key : String) (now : Instant) : Except Panic (Bool × RateLimiter) :=
  match now.checkedSub self.window with
  | none => .error .instantUnderflow
  | some cutoff => .ok (self.allowEntry key now cutoff)

def keyCount (self : RateLimiter) : Nat := self.entries.entries.length

def reset (self : RateLimiter) (key : String) : RateLimiter :=
  { self with entries := self.entries.erase key }

def clear (self : RateLimiter) : RateLimiter := { self with entries := ∅ }

/-- The part of `evict_stale` that visits one entry: prune it, drop it when empty. -/
def evictEntry (cutoff : Instant) (_key : String) (v : List Instant) : Option (List Instant) :=
  let v := v.filter fun ts => ts > cutoff
  if v.isEmpty then none else some v

def evictStale (self : RateLimiter) (now : Instant) : Except Panic RateLimiter :=
  match now.checkedSub self.window with
  | none => .error .instantUnderflow
  | some cutoff => .ok { self with entries := self.entries.retain (evictEntry cutoff) }

/-! ## What the operations do to one key -/

/-- The timestamps stored for a key, oldest insertion first. -/
def deque (self : RateLimiter) (key : String) : List Instant := (self.entries.get key).getD []

theorem new_eq_ok {m : Nat} {w : Duration} {l : RateLimiter} (h : new m w = .ok l) :
    0 < m ∧ l = ⟨m, w, ∅⟩ := by
  unfold new at h
  split at h
  · next pos => exact ⟨pos, (Except.ok.inj h).symm⟩
  · cases h

@[simp] theorem deque_empty (m : Nat) (w : Duration) (key : String) :
    deque ⟨m, w, ∅⟩ key = [] := by
  simp [deque]

theorem filter_gt_eq_newer (cutoff : Instant) (log : List Instant) :
    (log.filter fun ts => ts > cutoff) = newer Instant.ns cutoff.ns log :=
  List.filter_congr fun _ _ => decide_eq_decide.mpr Instant.lt_iff_ns

section AllowEntry
variable (l : RateLimiter) (key : String) (now cutoff : Instant)

theorem allowEntry_eq : l.allowEntry key now cutoff =
    if (newer Instant.ns cutoff.ns (l.deque key)).length < l.maxRequests then
      (true, { l with
        entries := l.entries.insert key (newer Instant.ns cutoff.ns (l.deque key) ++ [now]) })
    else
      (false, { l with
        entries := l.entries.insert key (newer Instant.ns cutoff.ns (l.deque key)) }) := by
  unfold allowEntry deque
  rw [← filter_gt_eq_newer]

@[simp] theorem allowEntry_maxRequests :
    (l.allowEntry key now cutoff).2.maxRequests = l.maxRequests := by
  rw [allowEntry_eq]
  split <;> rfl

@[simp] theorem allowEntry_window : (l.allowEntry key now cutoff).2.window = l.window := by
  rw [allowEntry_eq]
  split <;> rfl

/-- `allow` admits when fewer than `max_requests` timestamps are newer than the
cutoff. -/
theorem allowEntry_admits : (l.allowEntry key now cutoff).1 = true ↔
    (newer Instant.ns cutoff.ns (l.deque key)).length < l.maxRequests := by
  rw [allowEntry_eq]
  split
  · next room => simp [room]
  · next full => simp only [Bool.false_eq_true, full]

theorem allowEntry_deque_admitted (h : (l.allowEntry key now cutoff).1 = true) :
    (l.allowEntry key now cutoff).2.deque key =
      newer Instant.ns cutoff.ns (l.deque key) ++ [now] := by
  have room := (l.allowEntry_admits key now cutoff).mp h
  rw [allowEntry_eq, if_pos room]
  simp [deque]

theorem allowEntry_deque_refused (h : (l.allowEntry key now cutoff).1 = false) :
    (l.allowEntry key now cutoff).2.deque key = newer Instant.ns cutoff.ns (l.deque key) := by
  have full := mt (l.allowEntry_admits key now cutoff).mpr (by simp [h])
  rw [allowEntry_eq, if_neg full]
  simp [deque]

/-- `allow` touches the entry of its own key only. -/
theorem allowEntry_get_other {other : String} (h : other ≠ key) :
    (l.allowEntry key now cutoff).2.entries.get other = l.entries.get other := by
  rw [allowEntry_eq]
  split <;> exact KeyMap.get_insert_of_ne _ _ h

theorem allowEntry_deque_other {other : String} (h : other ≠ key) :
    (l.allowEntry key now cutoff).2.deque other = l.deque other := by
  rw [deque, allowEntry_get_other l key now cutoff h, deque]

/-- The key of a call has an entry afterwards. -/
theorem mem_allowEntry {other : String} :
    other ∈ (l.allowEntry key now cutoff).2.entries ↔ other = key ∨ other ∈ l.entries := by
  rw [allowEntry_eq]
  split <;> exact AList.mem_insert l.entries

/-- On its own key, `allow` is one decision of a deque in the sense of
`SlidingWindow.Sections`. -/
theorem allowEntry_sections {w : Int} {decided admitted : List Instant}
    (h : Sections Instant.ns l.maxRequests w decided admitted (l.deque key))
    (hcutoff : cutoff.ns = now.ns - w) :
    Sections Instant.ns l.maxRequests w (decided ++ [now])
      (if (l.allowEntry key now cutoff).1 then admitted ++ [now] else admitted)
      ((l.allowEntry key now cutoff).2.deque key) := by
  have admits := l.allowEntry_admits key now cutoff
  cases answer : (l.allowEntry key now cutoff).1 with
  | true =>
    rw [allowEntry_deque_admitted _ _ _ _ answer, if_pos rfl, hcutoff]
    exact .accept h (hcutoff ▸ admits.mp answer)
  | false =>
    rw [allowEntry_deque_refused _ _ _ _ answer, if_neg Bool.false_ne_true, hcutoff]
    rw [answer, hcutoff] at admits
    exact .refuse h (Nat.le_of_not_lt (by simpa using admits))

end AllowEntry

theorem allow_eq_ok {l l' : RateLimiter} {key : String} {now : Instant} {answer : Bool}
    (h : l.allow key now = .ok (answer, l')) :
    ∃ cutoff, now.checkedSub l.window = some cutoff ∧
      l.allowEntry key now cutoff = (answer, l') := by
  unfold allow at h
  split at h
  · cases h
  · next cutoff found => exact ⟨cutoff, found, Except.ok.inj h⟩

/-- What one returned call of `allow` does: it prunes the entry of its key, adds its
reading when that leaves room, and touches nothing else. -/
structure Decides (l : RateLimiter) (key : String) (now : Instant) (answer : Bool)
    (l' : RateLimiter) : Prop where
  maxRequests : l'.maxRequests = l.maxRequests
  window : l'.window = l.window
  keys : ∀ other, other ∈ l'.entries ↔ other = key ∨ other ∈ l.entries
  others : ∀ other, other ≠ key → l'.deque other = l.deque other
  own : (answer = true ∧
      (newer Instant.ns (now.ns - l.window.ns) (l.deque key)).length < l.maxRequests ∧
      l'.deque key = newer Instant.ns (now.ns - l.window.ns) (l.deque key) ++ [now]) ∨
    (answer = false ∧
      l.maxRequests ≤ (newer Instant.ns (now.ns - l.window.ns) (l.deque key)).length ∧
      l'.deque key = newer Instant.ns (now.ns - l.window.ns) (l.deque key))

theorem allow_decides {l l' : RateLimiter} {key : String} {now : Instant} {answer : Bool}
    (h : l.allow key now = .ok (answer, l')) : Decides l key now answer l' := by
  obtain ⟨cutoff, sub, entry⟩ := allow_eq_ok h
  have admits := l.allowEntry_admits key now cutoff
  obtain ⟨rfl, rfl⟩ : (l.allowEntry key now cutoff).1 = answer ∧
      (l.allowEntry key now cutoff).2 = l' := by rw [entry]; exact ⟨rfl, rfl⟩
  refine ⟨by simp, by simp, fun other => mem_allowEntry l key now cutoff,
    fun other => allowEntry_deque_other l key now cutoff, ?_⟩
  rw [← Instant.checkedSub_ns sub]
  cases answer : (l.allowEntry key now cutoff).1 with
  | true => exact .inl ⟨rfl, admits.mp answer, allowEntry_deque_admitted _ _ _ _ answer⟩
  | false =>
    refine .inr ⟨rfl, Nat.le_of_not_lt fun room => ?_, allowEntry_deque_refused _ _ _ _ answer⟩
    rw [admits.mpr room] at answer
    cases answer

variable {l l' : RateLimiter} {key : String} {now : Instant} {answer : Bool}

/-- What is stored afterwards was stored before or is the reading of the call. -/
theorem Decides.stored (h : Decides l key now answer l') {other : String} {ts : Instant}
    (mem : ts ∈ l'.deque other) : ts ∈ l.deque other ∨ (other = key ∧ ts = now) := by
  by_cases own : other = key
  · subst own
    rcases h.own with ⟨-, -, deque⟩ | ⟨-, -, deque⟩
    · rw [deque, List.mem_append, List.mem_singleton] at mem
      exact mem.imp (fun kept => (mem_newer.mp kept).1) fun last => ⟨rfl, last⟩
    · rw [deque] at mem
      exact .inl (mem_newer.mp mem).1
  · rw [h.others other own] at mem
    exact .inl mem

/-- Behind a call the entry of its key has a timestamp within the window. -/
theorem Decides.recent (h : Decides l key now answer l') (pos : 0 < l.maxRequests)
    (window : 0 < l.window.ns) : ∃ ts ∈ l'.deque key, now.ns - l.window.ns < ts.ns := by
  rcases h.own with ⟨-, -, deque⟩ | ⟨-, full, deque⟩
  · exact ⟨now, by simp [deque], by omega⟩
  · obtain ⟨ts, kept⟩ := List.exists_mem_of_length_pos (Nat.lt_of_lt_of_le pos full)
    exact ⟨ts, deque ▸ kept, (mem_newer.mp kept).2⟩

@[simp] theorem reset_deque (l : RateLimiter) (key other : String) :
    (l.reset key).deque other = if other = key then [] else l.deque other := by
  unfold reset deque
  rw [KeyMap.get_erase]
  split <;> rfl

@[simp] theorem clear_deque (l : RateLimiter) (key : String) : l.clear.deque key = [] := by
  simp [clear, deque]

/-- An entry that is visited keeps its newer timestamps. -/
theorem getD_bind_evictEntry (cutoff : Instant) (key : String) (entry : Option (List Instant)) :
    (entry.bind (evictEntry cutoff key)).getD [] =
      newer Instant.ns cutoff.ns (entry.getD []) := by
  cases entry with
  | none => rfl
  | some v =>
    simp only [Option.bind_some, Option.getD_some, evictEntry, filter_gt_eq_newer]
    split
    · next empty => rw [List.isEmpty_iff.mp empty]; rfl
    · rfl

/-- No visit leaves an entry empty. -/
theorem ne_nil_of_evictEntry {cutoff : Instant} {key : String} {v v' : List Instant}
    (h : evictEntry cutoff key v = some v') : v' ≠ [] := by
  simp only [evictEntry] at h
  split at h
  · cases h
  · next nonempty =>
    obtain rfl := Option.some.inj h
    exact fun empty => nonempty (List.isEmpty_iff.mpr empty)

/-- `evict_stale` prunes every key with the same cutoff. -/
theorem evictStale_eq_ok {l l' : RateLimiter} {now : Instant} (h : l.evictStale now = .ok l') :
    ∃ cutoff, now.checkedSub l.window = some cutoff ∧ l'.maxRequests = l.maxRequests ∧
      l'.window = l.window ∧ ∀ key, l'.deque key = newer Instant.ns cutoff.ns (l.deque key) := by
  unfold evictStale at h
  split at h
  · cases h
  · next cutoff found =>
    obtain rfl := Except.ok.inj h
    refine ⟨cutoff, found, rfl, rfl, fun key => ?_⟩
    simp only [deque, KeyMap.get_retain]
    exact getD_bind_evictEntry cutoff key _

end RateLimiter

end SimplyProxy
