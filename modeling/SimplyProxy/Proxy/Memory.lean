import SimplyProxy.Proxy.Operations

/-!
# What the limiter remembers

`RateLimiter::evict_stale` is documented as the periodic cleanup that bounds memory
usage. Nothing in the proxy calls it. A request prunes the entry of its own key only,
and a round of health checks prunes none, so the limiter has an entry for every key that
ever sent a request. A key is the printed `ip:port` of a client, so a client has a new one
with each of its connections.

1. `forgets_when_returning`: the entries are as recent as their keys are faithful. When no
   key stays away for longer than `K` windows, every entry has a timestamp of the last
   `K + 1` windows. And every key that stays away for longer leaves an entry whose
   timestamps are older.
2. `away_remembered`: a key that sends one request and goes away is remembered.

The invariant is `Remembers`: which keys have an entry, and what is stored in it.
-/

namespace SimplyProxy
namespace SimpleProxy
open RateLimiter

/-- The request is decided by the limiter under `key`, with the window `w`. -/
def CountedAs (w : Duration) (key : String) (r : Request) : Prop :=
  limited r.session = true ∧ limitKey r.session = key ∧ (r.now.checkedSub w).isSome

def Operation.reading : Operation → Option Instant
  | .request r => some r.now
  | .update _ => none
  | .healthRound => none

/-! ## The invariant -/

/-- The limiter against the operations so far. -/
structure Remembers (w : Duration) (hist : List Operation) (l : RateLimiter) : Prop where
  window : l.window = w
  pos : 0 < l.maxRequests
  keys : ∀ key, key ∈ l.entries ↔ ∃ r, .request r ∈ hist ∧ CountedAs w key r
  stored : ∀ key, ∀ ts ∈ l.deque key, ∃ r, .request r ∈ hist ∧ CountedAs w key r ∧ r.now = ts
  recent : ∀ key r, .request r ∈ hist → CountedAs w key r →
    ∃ ts ∈ l.deque key, r.now.ns - w.ns < ts.ns

variable {w : Duration} {hist : List Operation} {l l' : RateLimiter} {checks : HealthChecks}
  {proxy : SimpleProxy}

theorem remembers_new (fresh : RateLimiter.new l.maxRequests l.window = .ok l) :
    Remembers l.window [] l := by
  obtain ⟨pos, empty⟩ := new_eq_ok fresh
  rw [empty]
  exact ⟨rfl, pos, fun key => by simp, fun key ts mem => by simp at mem, by simp⟩

/-- An operation that the limiter does not decide on. -/
theorem Remembers.skip (h : Remembers w hist l) {op : Operation}
    (uncounted : ∀ key r, op = .request r → ¬CountedAs w key r) :
    Remembers w (hist ++ [op]) l := by
  have same : ∀ key r, .request r ∈ hist ++ [op] ∧ CountedAs w key r ↔
      .request r ∈ hist ∧ CountedAs w key r := by
    intro key r
    rw [List.mem_append, List.mem_singleton]
    constructor
    · rintro ⟨old | new, counted⟩
      · exact ⟨old, counted⟩
      · exact absurd counted (uncounted key r new.symm)
    · exact fun ⟨old, counted⟩ => ⟨.inl old, counted⟩
  refine ⟨h.window, h.pos, fun key => ?_, fun key ts mem => ?_, fun key r mem counted => ?_⟩
  · rw [h.keys]
    simp only [same]
  · obtain ⟨r, old, counted, reading⟩ := h.stored key ts mem
    exact ⟨r, List.mem_append_left _ old, counted, reading⟩
  · exact h.recent key r ((same key r).mp ⟨mem, counted⟩).1 counted

/-- A request that the limiter decides on. -/
theorem Remembers.decide (h : Remembers w hist l) (window : 0 < w.ns) {r : Request}
    (counted : CountedAs w (limitKey r.session) r)
    (ordered : ∀ r', .request r' ∈ hist → r'.now ≤ r.now) {answer : Bool}
    (decides : Decides l (limitKey r.session) r.now answer l') :
    Remembers w (hist ++ [.request r]) l' := by
  have mem_snoc : ∀ r', Operation.request r' ∈ hist ++ [.request r] ↔
      .request r' ∈ hist ∨ r' = r := by simp
  have newest := decides.recent h.pos (h.window ▸ window)
  rw [h.window] at newest
  refine ⟨decides.window.trans h.window, decides.maxRequests ▸ h.pos, fun key => ?_,
    fun key ts mem => ?_, fun key r' mem counted' => ?_⟩
  · rw [decides.keys, h.keys]
    constructor
    · rintro (rfl | ⟨r', old, counted'⟩)
      · exact ⟨r, by simp, counted⟩
      · exact ⟨r', List.mem_append_left _ old, counted'⟩
    · rintro ⟨r', mem, counted'⟩
      rcases (mem_snoc r').mp mem with old | rfl
      · exact .inr ⟨r', old, counted'⟩
      · exact .inl counted'.2.1.symm
  · rcases decides.stored mem with old | ⟨rfl, rfl⟩
    · obtain ⟨r', mem', counted', reading⟩ := h.stored key ts old
      exact ⟨r', List.mem_append_left _ mem', counted', reading⟩
    · exact ⟨r, by simp, counted, rfl⟩
  · by_cases own : key = limitKey r.session
    · -- the entry of this key has been pruned, and keeps something recent
      subst own
      obtain ⟨ts, kept, recent⟩ := newest
      have le : r'.now.ns ≤ r.now.ns := by
        rcases (mem_snoc r').mp mem with old | rfl
        · exact Instant.le_iff_ns.mp (ordered r' old)
        · exact le_refl _
      exact ⟨ts, kept, by omega⟩
    · rw [decides.others key own]
      rcases (mem_snoc r').mp mem with old | rfl
      · exact h.recent key r' old counted'
      · exact absurd counted'.2.1.symm own

/-- Every operation keeps the invariant. -/
theorem Remembers.operate (h : Remembers w hist l) (window : 0 < w.ns)
    (held : proxy.rateLimiter = some l) {op : Operation}
    (ordered : ∀ r, op = .request r → ∀ r', .request r' ∈ hist → r'.now ≤ r.now) :
    ∃ l', (operate checks proxy op).rateLimiter = some l' ∧ Remembers w (hist ++ [op]) l' := by
  cases op with
  | request r =>
    rcases requestFilter_rateLimiter held r.session r.ctx r.now with
      ⟨uncounted, same⟩ | ⟨answer, l', counts, allowed, next⟩
    · refine ⟨l, by rw [SimpleProxy.operate, same, held], h.skip ?_⟩
      rintro key _ ⟨⟩ ⟨counts, -, fits⟩
      rcases uncounted with free | ⟨p, failed⟩
      · rw [free] at counts
        cases counts
      · obtain ⟨cutoff, found⟩ := Option.isSome_iff_exists.mp fits
        rw [RateLimiter.allow, h.window, found] at failed
        cases failed
    · obtain ⟨cutoff, found, -⟩ := allow_eq_ok allowed
      rw [h.window] at found
      refine ⟨l', by rw [SimpleProxy.operate, next], ?_⟩
      exact h.decide window ⟨counts, rfl, by simp [found]⟩ (ordered r rfl) (allow_decides allowed)
  | update config => exact ⟨l, held, h.skip fun _ _ other => by cases other⟩
  | healthRound => exact ⟨l, held, h.skip fun _ _ other => by cases other⟩

theorem remembers_after (fresh : RateLimiter.new l.maxRequests l.window = .ok l)
    (held : proxy.rateLimiter = some l) (window : 0 < l.window.ns) (ops : List Operation)
    (ordered : (ops.filterMap Operation.reading).Pairwise (· ≤ ·)) :
    ∃ l', (after checks proxy ops).rateLimiter = some l' ∧ Remembers l.window ops l' := by
  induction ops using List.reverseRecOn with
  | nil => exact ⟨l, held, remembers_new fresh⟩
  | append_singleton ops op ih =>
    rw [List.filterMap_append, List.pairwise_append] at ordered
    obtain ⟨before, -, last⟩ := ordered
    obtain ⟨mid, heldMid, remembers⟩ := ih before
    rw [after_snoc]
    refine remembers.operate window heldMid ?_
    rintro r rfl r' mem
    refine last r'.now ?_ r.now (by simp [Operation.reading])
    exact List.mem_filterMap.mpr ⟨.request r', mem, rfl⟩

/-! ## Keys that go away -/

/-- A run of a proxy from its start with a limiter, at readings that never go back. -/
structure LimitedRun where
  checks : HealthChecks
  proxy : SimpleProxy
  limiter : RateLimiter
  held : proxy.rateLimiter = some limiter
  fresh : RateLimiter.new limiter.maxRequests limiter.window = .ok limiter
  window_pos : 0 < limiter.window.ns
  operations : List Operation
  ordered : (operations.filterMap Operation.reading).Pairwise (· ≤ ·)

/-- Right after each request that the limiter decides on, every entry has a timestamp of
the last `K` windows. -/
def Forgets (K : Nat) (run : LimitedRun) : Prop :=
  ∀ before request rest, run.operations = before ++ .request request :: rest →
    CountedAs run.limiter.window (limitKey request.session) request →
      ∀ l, (after run.checks run.proxy (before ++ [.request request])).rateLimiter = some l →
        ∀ key ∈ l.entries,
          ∃ ts ∈ l.deque key, request.now.ns - K * run.limiter.window.ns < ts.ns

/-- At each request that the limiter decides on, every key under which it has decided one so
far has one in the last `K` windows. -/
def Returning (K : Nat) (run : LimitedRun) : Prop :=
  ∀ before request rest, run.operations = before ++ .request request :: rest →
    CountedAs run.limiter.window (limitKey request.session) request →
      ∀ key, (∃ r, .request r ∈ before ++ [.request request] ∧
          CountedAs run.limiter.window key r) →
        ∃ r, .request r ∈ before ++ [.request request] ∧ CountedAs run.limiter.window key r ∧
          request.now.ns - K * run.limiter.window.ns < r.now.ns

/-- The invariant holds right after each request of a run. -/
theorem LimitedRun.remembers (run : LimitedRun) {before rest : List Operation} {request : Request}
    (split : run.operations = before ++ .request request :: rest) :
    ∃ l, (after run.checks run.proxy (before ++ [.request request])).rateLimiter = some l ∧
      Remembers run.limiter.window (before ++ [.request request]) l := by
  have ordered := run.ordered
  rw [split, List.append_cons, List.filterMap_append, List.pairwise_append] at ordered
  exact remembers_after run.fresh run.held run.window_pos _ ordered.1

/-- Keys that keep returning keep their entries recent. -/
theorem Returning.forgets {K : Nat} {run : LimitedRun} (returning : Returning K run) :
    Forgets (K + 1) run := by
  intro before request rest split counted l held key tracked
  obtain ⟨l', held', remembers⟩ := run.remembers split
  obtain rfl : l = l' := Option.some.inj (held.symm.trans held')
  obtain ⟨r, sent, counted', last⟩ :=
    returning before request rest split counted key ((remembers.keys key).mp tracked)
  obtain ⟨ts, stored, newer⟩ := remembers.recent key r sent counted'
  refine ⟨ts, stored, ?_⟩
  rw [Nat.cast_succ, add_mul, one_mul]
  omega

/-- A key with a recent timestamp has sent a request at it. -/
theorem Forgets.returning {K : Nat} {run : LimitedRun} (forgets : Forgets K run) :
    Returning K run := by
  intro before request rest split counted key sent
  obtain ⟨l, held, remembers⟩ := run.remembers split
  obtain ⟨ts, stored, newer⟩ :=
    forgets before request rest split counted l held key ((remembers.keys key).mpr sent)
  obtain ⟨r, sent', counted', rfl⟩ := remembers.stored key ts stored
  exact ⟨r, sent', counted', newer⟩

/-- When no key stays away for longer than `K` windows, every entry has a timestamp of the
last `K + 1` windows; and when every entry has a timestamp of the last `K` windows, no key
stays away for longer. -/
theorem forgets_when_returning (K : Nat) (run : LimitedRun) :
    (Returning K run → Forgets (K + 1) run) ∧ (Forgets K run → Returning K run) :=
  ⟨Returning.forgets, Forgets.returning⟩

/-- A request under the key `ip:4000`. -/
def sentBy (ip : String) (now : Instant) : Request where
  session := ⟨some ⟨ip, 4000⟩, ⟨⟨none, none, none, "/"⟩, ⟨[]⟩⟩, fun _ => none, []⟩
  ctx := newCtx
  now := now

theorem countedAs_sentBy (ip : String) {now : Instant} (later : 0 ≤ now.secs) :
    CountedAs (.fromSecs 1) (SocketAddr.toString ⟨ip, 4000⟩) (sentBy ip now) := by
  have counts : limited (sentBy ip now).session = true := by
    show decide ("/" ≠ "/health") = true
    decide
  refine ⟨counts, rfl, Instant.checkedSub_fromSecs_isSome_iff.mpr ?_⟩
  show 1 ≤ now.secs + 2 ^ 63
  omega

/-- One key sends a request in second 0 and goes away, another sends one when `K + 1` windows
have passed. -/
def away (K : Nat) (fits : K + 1 < 2 ^ 63) : LimitedRun where
  checks := ⟨.ok, id⟩
  proxy := limitedBy ⟨1, .fromSecs 1, ∅⟩
  limiter := ⟨1, .fromSecs 1, ∅⟩
  held := rfl
  fresh := rfl
  window_pos := by decide
  operations := [.request (sentBy "10.0.0.1" (.ofSecs 0 (by decide))),
    .request (sentBy "10.0.0.2" (.ofSecs (K + 1) (by omega)))]
  ordered := by
    simp only [Operation.reading, sentBy, List.filterMap_cons, List.filterMap_nil,
      List.pairwise_pair]
    rw [Instant.le_iff_ns, Instant.ofSecs_ns, Instant.ofSecs_ns]
    omega

/-- Whatever the number of windows is, as far as the clock reaches, there is a run in
which an entry is older. -/
theorem away_remembered : ¬∃ K : Nat, K + 1 < 2 ^ 63 ∧ ∀ run, Forgets K run := by
  rintro ⟨K, fits, forgets⟩
  have later : 0 ≤ (Instant.ofSecs (K + 1) (by omega)).secs := Int.natCast_nonneg (K + 1)
  obtain ⟨r, sent, counted, last⟩ := (forgets (away K fits)).returning [_] _ [] rfl
    (countedAs_sentBy "10.0.0.2" later) (SocketAddr.toString ⟨"10.0.0.1", 4000⟩)
    ⟨sentBy "10.0.0.1" (.ofSecs 0 (by decide)), by simp, countedAs_sentBy "10.0.0.1" (by decide)⟩
  rcases List.mem_pair.mp sent with same | same
  · -- the only request of the first key is `K + 1` windows old
    obtain rfl := Operation.request.inj same
    have windows : (Duration.fromSecs 1).ns = 1_000_000_000 := rfl
    simp only [sentBy, away, Instant.ofSecs_ns, windows] at last
    omega
  · obtain rfl := Operation.request.inj same
    have same : SocketAddr.toString ⟨"10.0.0.2", 4000⟩ = SocketAddr.toString ⟨"10.0.0.1", 4000⟩ :=
      counted.2.1
    exact absurd same (by decide +kernel)

end SimpleProxy

end SimplyProxy
