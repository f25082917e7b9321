import SimplyProxy.Proxy.Requests

/-!
# The request limit of a client

The configuration promises a limit per client IP. `request_filter` counts under the
printed address of the client, which has the source port in it, so what is counted
together are the requests of one connection.

1. `passed_le_of_oneSource`: in every sequence of requests, a client stays within
   the limit in each window in which all its requests come from one source port, or
   in which it sends no more requests than the limit.
2. `two_sources_pass`: in general a client exceeds the limit by connecting twice.

The invariant is `Limited`: the requests of each key were decided one after another
on the deque of that key.
-/

namespace SimplyProxy
namespace SimpleProxy
open SlidingWindow Runs

/-! ## The invariant -/

/-- The request was counted under `key` and has passed. -/
def PassedAs (key : String) (e : Served) : Prop :=
  limited e.request.session = true ∧ limitKey e.request.session = key ∧ e.outcome = .ok false

instance (key : String) (e : Served) : Decidable (PassedAs key e) :=
  inferInstanceAs (Decidable (_ ∧ _ ∧ _))

/-- The readings at which requests counted under `key` have passed. -/
def passedAs (key : String) (hist : List Served) : List Instant :=
  (hist.filter fun e => PassedAs key e).map fun e => e.request.now

/-- The limiter against the requests that were served. -/
structure Limits (m : Nat) (w : Duration) (hist : List Served) (l : RateLimiter) : Prop where
  maxRequests : l.maxRequests = m
  window : l.window = w
  keys : ∀ key, ∃ decided : List Instant, decided.Sublist (hist.map fun e => e.request.now) ∧
    Sections Instant.ns m w.ns decided (passedAs key hist) (l.deque key)

/-- The proxy has such a limiter. -/
def Limited (m : Nat) (w : Duration) (hist : List Served) (self : SimpleProxy) : Prop :=
  ∃ l, self.rateLimiter = some l ∧ Limits m w hist l

variable {m : Nat} {w : Duration} {hist : List Served} {l l' : RateLimiter}
  {self self' : SimpleProxy}

theorem passedAs_snoc (key : String) (hist : List Served) (e : Served) :
    passedAs key (hist ++ [e]) =
      if PassedAs key e then passedAs key hist ++ [e.request.now] else passedAs key hist := by
  unfold passedAs
  by_cases passed : PassedAs key e <;> simp [passed]

theorem limits_new (h : RateLimiter.new m w = .ok l) : Limits m w [] l := by
  obtain ⟨-, rfl⟩ := RateLimiter.new_eq_ok h
  refine ⟨rfl, rfl, fun key => ⟨[], .slnil, ?_⟩⟩
  rw [RateLimiter.deque_empty]
  exact .nil

/-- A request that leaves the limiter alone and does not pass under any key. -/
theorem Limits.skip (h : Limits m w hist l) {e : Served} (unpassed : ∀ key, ¬PassedAs key e) :
    Limits m w (hist ++ [e]) l := by
  refine ⟨h.maxRequests, h.window, fun key => ?_⟩
  obtain ⟨decided, served, sections⟩ := h.keys key
  refine ⟨decided, ?_, ?_⟩
  · rw [List.map_append]
    exact served.trans (List.sublist_append_left _ _)
  · rwa [passedAs_snoc, if_neg (unpassed key)]

/-- A request that the limiter decides. -/
theorem Limits.allow (h : Limits m w hist l) {e : Served}
    (counts : limited e.request.session = true) {passed : Bool}
    (decision : l.allow (limitKey e.request.session) e.request.now = .ok (passed, l'))
    (outcome : e.outcome = .ok false ↔ passed = true) : Limits m w (hist ++ [e]) l' := by
  obtain ⟨cutoff, sub, entry⟩ := RateLimiter.allow_eq_ok decision
  rw [h.window] at sub
  have cutoff_ns := Instant.checkedSub_ns sub
  obtain ⟨rfl, rfl⟩ : (l.allowEntry (limitKey e.request.session) e.request.now cutoff).1 = passed ∧
      (l.allowEntry (limitKey e.request.session) e.request.now cutoff).2 = l' := by
    rw [entry]; exact ⟨rfl, rfl⟩
  refine ⟨by simp [h.maxRequests], by simp [h.window], fun key => ?_⟩
  obtain ⟨decided, served, sections⟩ := h.keys key
  rw [passedAs_snoc, List.map_append]
  by_cases own : key = limitKey e.request.session
  · subst own
    refine ⟨decided ++ [e.request.now], served.append (.refl _), ?_⟩
    rw [← h.maxRequests] at sections ⊢
    have next := l.allowEntry_sections _ e.request.now cutoff sections cutoff_ns
    simpa [PassedAs, counts, outcome] using next
  · -- another key: its deque is not touched
    refine ⟨decided, served.trans (List.sublist_append_left _ _), ?_⟩
    rw [RateLimiter.allowEntry_deque_other _ _ _ _ own,
      if_neg fun passed : PassedAs key e => own passed.2.1.symm]
    exact sections

/-- Every request keeps the invariant. -/
theorem Limited.step (h : Limited m w hist self) {e : Served} (hstep : Step self e self') :
    Limited m w (hist ++ [e]) self' := by
  obtain ⟨l, limiter, limits⟩ := h
  obtain ⟨outcome, rfl⟩ := hstep
  rcases self.requestFilter_cases e.request.session e.request.ctx e.request.now with
    ⟨free, reply⟩ | ⟨_, p, -, -, -, reply⟩ | ⟨l₁, l', limiter₁, counts, decision, reply⟩ |
    ⟨l₁, l', written, session', limiter₁, counts, decision, -, reply⟩
  · have free : limited e.request.session = false := free.resolve_left (by simp [limiter])
    rw [reply]
    exact ⟨l, limiter, limits.skip fun key passed => by simp [PassedAs, free] at passed⟩
  · rw [reply] at outcome ⊢
    exact ⟨l, limiter, limits.skip fun key passed => by simp [PassedAs, outcome] at passed⟩
  · obtain rfl : l = l₁ := Option.some.inj (limiter.symm.trans limiter₁)
    rw [reply] at outcome ⊢
    exact ⟨l', rfl, limits.allow counts decision (by simp [outcome])⟩
  · obtain rfl : l = l₁ := Option.some.inj (limiter.symm.trans limiter₁)
    rw [reply] at outcome ⊢
    exact ⟨l', rfl, limits.allow counts decision (by simp [outcome, refusal_ne_passed])⟩

theorem limited_serve (h : RateLimiter.new m w = .ok l) (limiter : self.rateLimiter = some l)
    (requests : List Request) :
    Limited m w (serve self requests).1 (serve self requests).2 :=
  (serve_run self requests).1.invariant (I := fun hist self => Limited m w hist self)
    ⟨l, limiter, limits_new h⟩ fun limited hstep => limited.step hstep

/-! ## The limit -/

/-- The request counts against the limit and comes from the given IP address. -/
def FromClient (ip : String) (request : Request) : Prop :=
  limited request.session = true ∧ request.session.clientAddr.map SocketAddr.ip = some ip

/-- The reading lies in `(t - w, t]`. -/
def Inside (w : Duration) (t : Int) (now : Instant) : Prop := t - w.ns < now.ns ∧ now.ns ≤ t

instance (ip : String) (request : Request) : Decidable (FromClient ip request) :=
  inferInstanceAs (Decidable (_ ∧ _))

instance (w : Duration) (t : Int) (now : Instant) : Decidable (Inside w t now) :=
  inferInstanceAs (Decidable (_ ∧ _))

/-- How many requests of a client lie in a window. -/
def sentIn (w : Duration) (ip : String) (t : Int) (requests : List Request) : Nat :=
  requests.countP fun r => FromClient ip r ∧ Inside w t r.now

/-- How many of them have passed. -/
def passedIn (w : Duration) (ip : String) (t : Int) (hist : List Served) : Nat :=
  hist.countP fun e => FromClient ip e.request ∧ Inside w t e.request.now ∧ e.outcome = .ok false

/-- All requests of a client in a window come from one source port. -/
def OneSource (w : Duration) (ip : String) (t : Int) (requests : List Request) : Prop :=
  ∃ port, ∀ r ∈ requests, FromClient ip r → Inside w t r.now →
    r.session.clientAddr = some ⟨ip, port⟩

theorem passedIn_le_sentIn (w : Duration) (ip : String) (t : Int) (hist : List Served) :
    passedIn w ip t hist ≤ sentIn w ip t (hist.map Served.request) := by
  rw [sentIn, List.countP_map]
  refine List.countP_mono_left fun e _ passed => ?_
  simp only [decide_eq_true_eq, Function.comp_apply] at passed ⊢
  exact ⟨passed.1, passed.2.1⟩

/-- What passes from one source port has passed under one key. -/
theorem passedIn_le_of_source {ip : String} {t : Int} {port : UInt16}
    (source : ∀ e ∈ hist, FromClient ip e.request → Inside w t e.request.now →
      e.request.session.clientAddr = some ⟨ip, port⟩) :
    passedIn w ip t hist ≤
      (inWindow Instant.ns w.ns t (passedAs (SocketAddr.toString ⟨ip, port⟩) hist)).length := by
  rw [inWindow, passedAs, ← List.countP_eq_length_filter, List.countP_map, List.countP_filter]
  refine List.countP_mono_left fun e mem passed => ?_
  simp only [decide_eq_true_eq, Function.comp_apply, Bool.and_eq_true] at passed ⊢
  obtain ⟨client, inside, passed⟩ := passed
  have key : limitKey e.request.session = SocketAddr.toString ⟨ip, port⟩ := by
    rw [limitKey, source e mem client inside]
    rfl
  exact ⟨inside, client.1, key, passed⟩

/-- Requests that come at readings that never go back: in every window in which a
client uses one source port, or sends at most `m` requests, at most `m` of its
requests pass. -/
theorem passed_le_of_oneSource (h : RateLimiter.new m w = .ok l)
    (limiter : self.rateLimiter = some l) (requests : List Request)
    (ordered : (requests.map Request.now).Pairwise (· ≤ ·)) (ip : String) (t : Int)
    (source : OneSource w ip t requests ∨ sentIn w ip t requests ≤ m) :
    passedIn w ip t (serve self requests).1 ≤ m := by
  have same := (serve_run self requests).2
  rcases source with ⟨port, source⟩ | few
  -- one port is one key, and the requests of one key are within the limit
  · obtain ⟨l', -, limits⟩ := limited_serve h limiter requests
    obtain ⟨decided, served, sections⟩ := limits.keys (SocketAddr.toString ⟨ip, port⟩)
    have inOrder : decided.Pairwise fun a b => a.ns ≤ b.ns := by
      refine List.Pairwise.sublist served ?_
      rw [← same, List.map_map] at ordered
      exact ordered
    refine (passedIn_le_of_source fun e mem => source e.request ?_).trans
      ((sections.admissible (.of_pairwise inOrder)).inWindow_length_le t)
    exact same ▸ List.mem_map_of_mem mem
  · refine (passedIn_le_sentIn w ip t _).trans ?_
    rwa [same]

/-- A proxy without servers that lets one request pass in ten seconds. -/
def oneInTen : SimpleProxy where
  config := ⟨⟨8080, none, some ⟨1, .fromSecs 10⟩⟩, ∅⟩
  routeTable := ∅
  rateLimiter := some ⟨1, .fromSecs 10, ∅⟩

/-- A request of one client from the given source port. -/
def visit (port : UInt16) (now : Instant) : Request where
  session := ⟨some ⟨"10.0.0.1", port⟩, ⟨⟨none, none, none, "/"⟩, ⟨[]⟩⟩, fun _ => none, []⟩
  ctx := newCtx
  now := now

/-- Two requests over one connection. -/
theorem passed_le_of_oneSource_twice :
    passedIn (.fromSecs 10) "10.0.0.1" 105_000_000_000
      (serve oneInTen [visit 1000 (.ofSecs 100 (by decide)),
        visit 1000 (.ofSecs 105 (by decide))]).1 ≤ 1 :=
  passed_le_of_oneSource rfl rfl [visit 1000 _, visit 1000 _] (by decide) _ _
    (.inl ⟨1000, by simp [visit]⟩)

/-- A client that connects from a second port is let pass twice. -/
theorem two_sources_pass :
    ¬∀ (m : Nat) (w : Duration) (l : RateLimiter) (self : SimpleProxy),
      RateLimiter.new m w = .ok l → self.rateLimiter = some l → ∀ requests : List Request,
        (requests.map Request.now).Pairwise (· ≤ ·) →
        ∀ (ip : String) (t : Int), passedIn w ip t (serve self requests).1 ≤ m := by
  intro limit
  have atMostOne := limit 1 (.fromSecs 10) _ oneInTen rfl rfl
    [visit 1000 (.ofSecs 100 (by decide)), visit 1001 (.ofSecs 100 (by decide))] (by decide)
    "10.0.0.1" 100_000_000_000
  have two : passedIn (.fromSecs 10) "10.0.0.1" 100_000_000_000 (serve oneInTen
      [visit 1000 (.ofSecs 100 (by decide)), visit 1001 (.ofSecs 100 (by decide))]).1 = 2 := by
    decide +kernel
  omega

end SimpleProxy

end SimplyProxy
