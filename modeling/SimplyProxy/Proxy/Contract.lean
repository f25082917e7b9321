import SimplyProxy.Proxy.Balance
import SimplyProxy.RateLimit.Sequential

/-!
# What a configuration file promises

`promised_run`: a proxy that was made from a configuration keeps what the file says about each
request and about each attempt to reach an upstream, in every run. The limit is met by the
log of the requests that have passed before under the same key, the `ip:port` of the client,
and the backends are those of the file, as the last probes have found them. Nothing else that
happens in between changes that: no request under another key, no round of health checks, no
retry and no stored configuration.

The invariants are `simulates_limiter`, which reads a run of the proxy as a run of its
limiter, and `Keeps`, of the routes.
-/

namespace SimplyProxy
namespace Serving
open Runs SlidingWindow RoundRobin SimpleProxy

/-! ## The contract -/

/-- The readings at which requests counted under `key` have passed. -/
def passedUnder (key : String) (events : List Event) : List Instant :=
  events.filterMap fun e => match e with
    | .filter _ session now outcome =>
      if limited session ∧ limitKey session = key ∧ outcome = .ok false then some now else none
    | _ => none

/-- The readings that requests take, in order. -/
def readings (events : List Event) : List Instant :=
  events.filterMap fun e => match e with
    | .filter _ _ now _ => some now
    | _ => none

/-- How a request that counts is to end, after those under its key in `log` have passed. -/
structure Metered (rl : RateLimitConfig) (log : List Instant) (now : Instant)
    (outcome : Outcome ProxyError Bool) : Prop where
  panics : now.checkedSub (.fromSecs rl.windowSecs) = none → outcome = .panic .instantUnderflow
  passes : (now.checkedSub (.fromSecs rl.windowSecs)).isSome → (outcome = .ok false ↔
    (inWindow Instant.ns (Duration.fromSecs rl.windowSecs).ns now.ns log).length < rl.maxRequests)
  refuses : (now.checkedSub (.fromSecs rl.windowSecs)).isSome → outcome ≠ .ok false →
    ∃ written, outcome = refusal written

/-- What the file says about an event, after those before it. -/
def Promised (raw : SimpleProxyConfig) (before : List Event) : Event → Prop
  | .filter _ session now outcome =>
    match raw.global.rateLimit with
    | none => outcome = .ok false
    | some rl =>
      if limited session then Metered rl (passedUnder (limitKey session) before) now outcome
      else outcome = .ok false
  | .peer id host answer =>
    (∃ session now, .filter id session now (.ok false) ∈ before ∧ host = hostOf session) ∧
      Isolates raw host (lastUp host before) answer
  | .check _ => True
  | .probe _ _ _ => True
  | .update _ => True

variable {rotation : Rotation} {checks : HealthChecks} {proxy : SimpleProxy} {s s' : State}
  {events : List Event} {e : Event}

/-! ## The limit -/

/-- The call on the limiter that a request makes. -/
def counted : Event → Option RateLimiter.Event
  | .filter _ session now outcome =>
    if limited session then
      match outcome with
      | .panic _ => none
      | .ok answered => some ⟨.allow (limitKey session) now, some (!answered)⟩
      | .err _ => some ⟨.allow (limitKey session) now, some false⟩
    else none
  | _ => none

theorem counted_refusal {id : Nat} {session : Session} (counts : limited session = true)
    (now : Instant) (written : Except ProxyError Unit) :
    counted (.filter id session now (refusal written)) =
      some ⟨.allow (limitKey session) now, some false⟩ := by
  rcases written with e | ⟨⟩ <;> simp [counted, counts, refusal]

/-- A request on a proxy with a limiter: it does not count or panics, or it is one call. -/
theorem filter_limiter {self : SimpleProxy} {l : RateLimiter} (held : self.rateLimiter = some l)
    (id : Nat) (session : Session) (now : Instant) :
    (counted (.filter id session now (self.requestFilter session newCtx now).outcome) = none ∧
        (self.requestFilter session newCtx now).proxy.rateLimiter = some l) ∨
      ∃ call l', counted (.filter id session now (self.requestFilter session newCtx now).outcome) =
          some call ∧ RateLimiter.Step l call l' ∧
        (self.requestFilter session newCtx now).proxy.rateLimiter = some l' := by
  rcases self.requestFilter_cases session newCtx now with
    ⟨free, reply⟩ | ⟨l₁, p, held₁, counts, failed, reply⟩ | ⟨l₁, l', held₁, counts, passed, reply⟩ |
    ⟨l₁, l', written, _, held₁, counts, refused, -, reply⟩
  · have free : limited session = false := free.resolve_left (by simp [held])
    rw [reply]
    exact .inl ⟨by simp [counted, free], held⟩
  all_goals obtain rfl : l = l₁ := Option.some.inj (held.symm.trans held₁)
  · rw [reply]
    exact .inl ⟨by simp [counted, counts], held⟩
  · rw [reply]
    refine .inr ⟨⟨.allow (limitKey session) now, some true⟩, l', by simp [counted, counts], ?_, rfl⟩
    simp [RateLimiter.Step, RateLimiter.perform, passed, Except.map]
  · rw [reply]
    refine .inr ⟨_, l', counted_refusal counts now written, ?_, rfl⟩
    simp [RateLimiter.Step, RateLimiter.perform, refused, Except.map]

/-- Only requests touch the limiter. -/
theorem step_limiter (hstep : Step rotation checks s e s') :
    (counted e = none ∧ s'.proxy.rateLimiter = s.proxy.rateLimiter) ∨
      ∃ id session now, e = .filter id session now
          (s.proxy.requestFilter session newCtx now).outcome ∧
        s'.proxy = (s.proxy.requestFilter session newCtx now).proxy := by
  rcases step_cases hstep with ⟨id, session, now, -, rfl, rfl⟩ | ⟨id, ctx, -, rfl, rfl⟩ |
    ⟨checked, rfl, rfl⟩ | ⟨probed, backend, up, rfl, rfl⟩ | ⟨config, rfl, rfl⟩
  · exact .inr ⟨id, session, now, rfl, rfl⟩
  all_goals exact .inl ⟨rfl, rfl⟩

/-- The limiter in the proxy is a limiter on its own. -/
theorem simulates_limiter : Simulates (Step rotation checks) RateLimiter.Step counted
    fun s l => s.proxy.rateLimiter = some l where
  hidden := by
    intro s l e s' held hstep uncounted
    rcases step_limiter hstep with ⟨-, same⟩ | ⟨id, session, now, rfl, next⟩
    · exact same.trans held
    · rcases filter_limiter held id session now with ⟨-, same⟩ | ⟨call, l', counts, -⟩
      · rw [next, same]
      · rw [uncounted] at counts
        cases counts
  visible := by
    intro s l e s' call held hstep counts
    rcases step_limiter hstep with ⟨none, -⟩ | ⟨id, session, now, rfl, next⟩
    · rw [none] at counts
      cases counts
    · rcases filter_limiter held id session now with ⟨none, -⟩ | ⟨call', l', counts', called, held'⟩
      · rw [none] at counts
        cases counts
      · obtain rfl := Option.some.inj (counts'.symm.trans counts)
        exact ⟨l', called, by rw [next, held']⟩

/-- A proxy without a limiter stays without one. -/
theorem run_unlimited (unlimited : proxy.rateLimiter = none)
    (run : Run (Step rotation checks) (start proxy) events s) : s.proxy.rateLimiter = none := by
  refine run.invariant (I := fun _ s => s.proxy.rateLimiter = none) unlimited ?_
  intro _ s e s' none hstep
  rcases step_limiter hstep with ⟨-, same⟩ | ⟨id, session, now, -, next⟩
  · exact same.trans none
  · simp [next, requestFilter, none]

/-- The full log of the limiter are the requests that have passed. -/
theorem fullLog_counted (key : String) (events : List Event) :
    RateLimiter.fullLog key (events.filterMap counted) = passedUnder key events := by
  induction events using List.reverseRecOn with
  | nil => rfl
  | append_singleton events e ih =>
    unfold passedUnder at ih ⊢
    rw [List.filterMap_append, List.filterMap_append, ← ih]
    cases e with
    | filter id session now outcome =>
      by_cases counts : limited session
      · rcases outcome with (_ | _) | err | p
        all_goals by_cases own : limitKey session = key
        all_goals simp [counted, counts, own, RateLimiter.fullLog_snoc, RateLimiter.logStep]
      · simp [counted, counts]
    | _ =>
      show RateLimiter.fullLog key (_ ++ []) = _ ++ []
      rw [List.append_nil, List.append_nil]

/-- Everything the limiter has been called with was read before. -/
theorem reading_counted {events : List Event} {call : RateLimiter.Event}
    (mem : call ∈ events.filterMap counted) {r : Instant} (reading : call.call.reading = some r) :
    r ∈ readings events := by
  obtain ⟨e, mem, counts⟩ := List.mem_filterMap.mp mem
  refine List.mem_filterMap.mpr ⟨e, mem, ?_⟩
  cases e with
  | filter id session now outcome =>
    simp only [counted] at counts
    split at counts
    · split at counts
      · cases counts
      all_goals
        obtain rfl := Option.some.inj counts
        exact reading
    · cases counts
  | _ => cases counts

/-- A call of the limiter that returns has a cutoff, and counts the full log. -/
theorem counted_answer {l l' : RateLimiter} {rl : RateLimitConfig} {before : List Event}
    (tracks : RateLimiter.Tracks rl.maxRequests (.fromSecs rl.windowSecs)
      (before.filterMap counted) l) {key : String} {now : Instant}
    (ordered : ∀ r ∈ readings before, r ≤ now) {answer : Bool}
    (called : l.allow key now = .ok (answer, l')) :
    (now.checkedSub (.fromSecs rl.windowSecs)).isSome ∧ (answer = true ↔
      (inWindow Instant.ns (Duration.fromSecs rl.windowSecs).ns now.ns
        (passedUnder key before)).length < rl.maxRequests) := by
  obtain ⟨cutoff, sub, -⟩ := RateLimiter.allow_eq_ok called
  rw [tracks.window] at sub
  rw [sub, ← fullLog_counted]
  exact ⟨rfl, tracks.allow_answer called fun e mem r reading =>
    ordered r (reading_counted mem reading)⟩

/-- A request that counts, on a limiter that tracks what it was called with. -/
theorem metered {self : SimpleProxy} {l : RateLimiter} {rl : RateLimitConfig}
    (held : self.rateLimiter = some l) {before : List Event}
    (tracks : RateLimiter.Tracks rl.maxRequests (.fromSecs rl.windowSecs)
      (before.filterMap counted) l) {session : Session} (counts : limited session = true)
    {now : Instant} (ordered : ∀ r ∈ readings before, r ≤ now) :
    Metered rl (passedUnder (limitKey session) before) now
      (self.requestFilter session newCtx now).outcome := by
  rcases self.requestFilter_cases session newCtx now with
    ⟨free, -⟩ | ⟨l₁, p, held₁, -, failed, reply⟩ | ⟨l₁, l', held₁, -, passed, reply⟩ |
    ⟨l₁, l', written, _, held₁, -, refused, -, reply⟩
  · rcases free with none | free
    · rw [held] at none
      cases none
    · rw [counts] at free
      cases free
  all_goals obtain rfl : l = l₁ := Option.some.inj (held.symm.trans held₁)
  · unfold RateLimiter.allow at failed
    rw [tracks.window] at failed
    split at failed
    · next noCutoff =>
      obtain rfl := Except.error.inj failed
      rw [reply]
      refine ⟨fun _ => rfl, fun returns => ?_, fun returns => ?_⟩
      all_goals
        rw [noCutoff] at returns
        cases returns
    · cases failed
  · obtain ⟨returns, room⟩ := counted_answer tracks ordered passed
    rw [reply]
    refine ⟨fun none => ?_, fun _ => ⟨fun _ => room.mp rfl, fun _ => rfl⟩,
      fun _ refused => absurd rfl refused⟩
    rw [none] at returns
    cases returns
  · obtain ⟨returns, room⟩ := counted_answer tracks ordered refused
    rw [reply]
    refine ⟨fun none => ?_, fun _ => ⟨fun passed => ?_, fun few => ?_⟩, fun _ _ => ⟨written, rfl⟩⟩
    · rw [none] at returns
      cases returns
    · exact absurd passed (refusal_ne_passed written)
    · cases room.mpr few

/-! ## The routes -/

/-- The health of the backends is what the probes have found. -/
theorem run_lastUp (run : Run (Step rotation checks) (start proxy) events s) (host : String) :
    (s.balancers host).up = lastUp host events := by
  refine run.invariant (I := fun events s => (s.balancers host).up = lastUp host events) rfl ?_
  intro events s e s' same hstep
  have unprobed : (∀ backend, probed host backend e = none) →
      lastUp host (events ++ [e]) = lastUp host events := by
    intro none
    funext backend
    simp [lastUp, none]
  rcases step_cases hstep with ⟨id, session, now, -, rfl, rfl⟩ | ⟨id, ctx, -, rfl, rfl⟩ |
    ⟨checked, rfl, rfl⟩ | ⟨own, backend, up, rfl, rfl⟩ | ⟨config, rfl, rfl⟩
  · rw [unprobed fun _ => rfl]
    exact same
  · rw [unprobed fun _ => rfl, ← same]
    by_cases h : host = ctx.host
    · subst h
      simp only [Function.update_self, turned]
      split <;> rfl
    · simp only [Function.update_of_ne h]
  · rw [unprobed fun _ => rfl]
    exact same
  · by_cases h : host = own
    · subst h
      funext b
      have old := congrFun same b
      simp only [Function.update_self, Rotor.marked]
      by_cases hb : b = backend
      · subst hb
        simp [lastUp, probed]
      · rw [Function.update_of_ne hb, old]
        simp [lastUp, probed, Ne.symm hb]
    · simp only [Function.update_of_ne h]
      rw [same, unprobed fun _ => by simp [probed, Ne.symm h]]
  · rw [unprobed fun _ => rfl]
    exact same

/-- The context of a request is that of a request that has passed. -/
theorem run_contexts (run : Run (Step rotation checks) (start proxy) events s) {id : Nat}
    {ctx : ProxyContext} (held : s.contexts id = some ctx) :
    ∃ session now, .filter id session now (.ok false) ∈ events ∧ ctx.host = hostOf session := by
  refine run.invariant (I := fun events s => ∀ id ctx, s.contexts id = some ctx →
    ∃ session now, .filter id session now (.ok false) ∈ events ∧ ctx.host = hostOf session)
    nofun ?_ id ctx held
  intro events s e s' ih hstep id ctx held
  have older : s.contexts id = some ctx → ∃ session now,
      .filter id session now (.ok false) ∈ events ++ [e] ∧ ctx.host = hostOf session := by
    intro held
    obtain ⟨session, now, mem, host⟩ := ih id ctx held
    exact ⟨session, now, List.mem_append_left _ mem, host⟩
  rcases step_cases hstep with ⟨id', session, now, -, rfl, rfl⟩ | ⟨_, _, -, -, rfl⟩ |
    ⟨_, -, rfl⟩ | ⟨_, _, _, -, rfl⟩ | ⟨_, -, rfl⟩
  · rcases enroll_cases held with old | ⟨rfl, passed, rfl⟩
    · exact older old
    · exact ⟨session, now, by simp [passed], route_host _ _ _⟩
  all_goals exact older held

section Routes
variable {exist : FileSystem} {raw : SimpleProxyConfig} {config : ProxyConfigResolved}
  {servers : KeyMap String ServerConfigResolved} {pingora : Pingora}

/-- A context with the route of its host: it has one exactly when a block lists the host, and
then it is the route of that block. -/
theorem routed_of_settings (resolved : ProxyConfigResolved.tryFrom exist raw = .ok config)
    (reordered : servers.entries.Perm config.servers.entries)
    (made : tryNew pingora { config with servers := servers } = .ok proxy) {ctx : ProxyContext}
    (routed : ctx.routeEntry.map settings = (proxy.routeTable.get ctx.host).map settings) :
    (ctx.routeEntry = none → ∀ server ∈ raw.servers, ctx.host ∉ server.serverName) ∧
      ∀ entry, ctx.routeEntry = some entry →
        ∃ server ∈ raw.servers, ctx.host ∈ server.serverName ∧ ∃ group,
          LastNamed raw.upstreams server.upstream group ∧ entry.tls = server.tls.getD false ∧
            (pingora.Holds group.servers →
              ∀ backend, backend ∈ entry.upstream.backends ↔ backend.addr ∈ group.servers) := by
  constructor
  · intro absent
    rw [absent, Option.map_none, eq_comm, Option.map_eq_none_iff] at routed
    exact unlisted_of_get_eq_none resolved reordered made routed
  · intro entry present
    rw [present, Option.map_some, eq_comm, Option.map_eq_some_iff] at routed
    obtain ⟨entry', found, same⟩ := routed
    obtain ⟨backends, tls⟩ := Prod.mk.inj same
    rw [← tls, ← backends]
    exact routeTable_get resolved reordered made found

/-- A context with the route of its host is answered as the file says. -/
theorem isolates_of_settings (documented : pingora.Documented)
    (holds : ∀ group ∈ raw.upstreams, pingora.Holds group.servers)
    (resolved : ProxyConfigResolved.tryFrom exist raw = .ok config)
    (reordered : servers.entries.Perm config.servers.entries)
    (made : tryNew pingora { config with servers := servers } = .ok proxy) {ctx : ProxyContext}
    (routed : ctx.routeEntry.map settings = (proxy.routeTable.get ctx.host).map settings)
    (health : Backend → Bool) (next : Nat) :
    Isolates raw ctx.host health (upstreamPeer pingora health next ctx) := by
  obtain ⟨unlisted, block⟩ := routed_of_settings resolved reordered made routed
  rcases upstreamPeer_cases documented health next ctx with
    ⟨absent, notFound⟩ | ⟨entry, present, answer⟩
  · exact ⟨fun _ => notFound,
      fun ⟨server, mem, listed⟩ => absurd listed (unlisted absent server mem)⟩
  · obtain ⟨server, mem, listed, group, last, tls, backends⟩ := block entry present
    have backends := backends (holds group (mem_of_lastNamed last).1)
    refine ⟨fun unlisted => absurd listed (unlisted server mem), fun _ => ?_⟩
    have only := onlyLister_of_nodup (ProxyConfigResolved.tryFrom_wellFormed resolved).distinct mem
      listed
    refine ⟨server, group, only, last, answer.imp_right ?_⟩
    rintro ⟨peer, chosen, held, healthy, peerTls, sni⟩
    exact ⟨peer, chosen, (backends _).mp held, healthy, peerTls.trans tls, sni⟩

end Routes

/-! ## Every run -/

section Runs
variable {exist : FileSystem} {raw : SimpleProxyConfig} {config : ProxyConfigResolved}
  {servers : KeyMap String ServerConfigResolved}

/-- The limiter of a new proxy is that of the file. -/
theorem limiter_of_made {pingora : Pingora}
    (resolved : ProxyConfigResolved.tryFrom exist raw = .ok config)
    (made : tryNew pingora { config with servers := servers } = .ok proxy) :
    (raw.global.rateLimit = none ∧ proxy.rateLimiter = none) ∨
      ∃ rl l, raw.global.rateLimit = some rl ∧ proxy.rateLimiter = some l ∧
        RateLimiter.new rl.maxRequests (.fromSecs rl.windowSecs) = .ok l := by
  have limits := (tryNew_eq_ok made).2.1
  have global : config.global.rateLimit = raw.global.rateLimit.map .fromConfig :=
    (ProxyConfigResolved.tryFrom_resolves resolved).rateLimit
  unfold limiterOf at limits
  rw [global] at limits
  cases limit : raw.global.rateLimit with
  | none =>
    rw [limit] at limits
    exact .inl ⟨rfl, (Except.ok.inj limits).symm⟩
  | some rl =>
    rw [limit, Option.map_some, Option.mapM_some, map_eq_ok] at limits
    obtain ⟨l, new, held⟩ := limits
    exact .inr ⟨rl, l, rfl, held.symm, new⟩

/-- An attempt is one of a request that has passed, and gets the peer that the file says. -/
theorem isolates_run (documented : rotation.toPingora.Documented) (static : checks.Static)
    (holds : ∀ group ∈ raw.upstreams, rotation.toPingora.Holds group.servers)
    (resolved : ProxyConfigResolved.tryFrom exist raw = .ok config)
    (reordered : servers.entries.Perm config.servers.entries)
    (made : tryNew rotation.toPingora { config with servers := servers } = .ok proxy)
    {before after : List Event} {id : Nat} {host : String} {answer : Except ProxyError HttpPeer}
    (run : Run (Step rotation checks) (start proxy) (before ++ .peer id host answer :: after) s) :
    (∃ session now, .filter id session now (.ok false) ∈ before ∧ host = hostOf session) ∧
      Isolates raw host (lastUp host before) answer := by
  obtain ⟨mid, next, earlier, hstep⟩ := run.cut before _ after rfl
  obtain ⟨ctx, held, rfl, rfl⟩ := step_peer hstep
  obtain ⟨session, now, mem, host⟩ := run_contexts earlier held
  refine ⟨⟨session, now, mem, host⟩, ?_⟩
  rw [← run_lastUp earlier]
  exact isolates_of_settings documented holds resolved reordered made
    ((run_keeps static earlier).contexts id ctx held) _ _

/-- In every run of a proxy that was made from a configuration file, at readings that never
go back, every request and every attempt to reach an upstream ends as the file says. -/
theorem promised_run (documented : rotation.toPingora.Documented) (static : checks.Static)
    (holds : ∀ group ∈ raw.upstreams, rotation.toPingora.Holds group.servers)
    (resolved : ProxyConfigResolved.tryFrom exist raw = .ok config)
    (reordered : servers.entries.Perm config.servers.entries)
    (made : tryNew rotation.toPingora { config with servers := servers } = .ok proxy)
    {before after : List Event}
    (run : Run (Step rotation checks) (start proxy) (before ++ e :: after) s)
    (ordered : (readings (before ++ e :: after)).Pairwise (· ≤ ·)) : Promised raw before e := by
  cases e with
  | filter id session now outcome =>
    obtain ⟨mid, next, earlier, hstep⟩ := run.cut before _ after rfl
    rcases step_cases hstep with ⟨_, _, _, -, equal, -⟩ | ⟨_, _, -, equal, -⟩ |
      ⟨_, equal, -⟩ | ⟨_, _, _, equal, -⟩ | ⟨_, equal, -⟩ <;> cases equal
    rcases limiter_of_made resolved made with ⟨unlimited, none⟩ | ⟨rl, l₀, limit, some, new⟩
    · simp only [Promised, unlimited]
      simp [requestFilter, run_unlimited none earlier]
    · simp only [Promised, limit]
      obtain ⟨l, calls, held⟩ := simulates_limiter.run some earlier
      split
      · next counts =>
        refine metered held (RateLimiter.tracks_run new calls) counts fun r mem => ?_
        unfold readings at ordered
        rw [List.filterMap_append, List.pairwise_append] at ordered
        exact ordered.2.2 r mem now (by simp)
      · next free => simp [requestFilter, held, free]
  | peer id host answer =>
    exact isolates_run documented static holds resolved reordered made run
  | _ => exact True.intro

end Runs

end Serving

end SimplyProxy
