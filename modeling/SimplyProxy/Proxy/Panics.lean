import SimplyProxy.Proxy.Routing
import SimplyProxy.RateLimit.Sequential

/-!
# Panics of the proxy

Neither the resolution of a configuration nor the start of the proxy looks at the
numbers of a rate limit. A limit of zero requests runs into the assertion of
`RateLimiter::new`, and a window that reaches back behind the earliest instant
into the subtraction of `allow` and `evict_stale`.

1. `startUp_returns_iff`: the start from an accepted configuration does not panic
   exactly when the limit is not zero, or an upstream address is refused before the
   limiter is made.
2. `limiter_returns_iff`: at a given reading of the clock no call panics exactly when
   the window is no longer than the time from the earliest instant.
-/

namespace SimplyProxy
namespace SimpleProxy
open Runs

/-! ## Start-up -/

section StartUp

variable {pingora : Pingora} {exist : FileSystem} {raw : SimpleProxyConfig}
  {config : ProxyConfigResolved} {servers : KeyMap String ServerConfigResolved}

theorem limiterOf_isOk_iff : (∃ limiter, limiterOf config = .ok limiter) ↔
    ∀ rl, config.global.rateLimit = some rl → 0 < rl.maxRequests := by
  unfold limiterOf
  cases config.global.rateLimit with
  | none => simp
  | some rl =>
    simp only [Option.mapM_some, map_eq_ok, Option.some.injEq, forall_eq']
    by_cases pos : 0 < rl.maxRequests <;> simp [RateLimiter.new, pos]

/-- The start panics when the route table is built and the limiter is not. -/
theorem tryNew_returns_iff : (∀ p, tryNew pingora config ≠ .panic p) ↔
    ((∃ table, RouteTable.tryNew pingora config = .ok table) →
      ∃ limiter, limiterOf config = .ok limiter) := by
  unfold tryNew
  cases RouteTable.tryNew pingora config with
  | error e => simp
  | ok table => cases limiterOf config <;> simp

/-- A block that lists a name has an upstream group with refused addresses. -/
def Refused (pingora : Pingora) (raw : SimpleProxyConfig) : Prop :=
  ∃ server ∈ raw.servers, server.serverName ≠ [] ∧ ∃ group,
    LastNamed raw.upstreams server.upstream group ∧
      ∃ e, pingora.tryFromIter group.servers = .error e

/-- The route table is built exactly when no addresses are refused. -/
theorem routeTable_isOk_iff (resolved : ProxyConfigResolved.tryFrom exist raw = .ok config)
    (reordered : servers.entries.Perm config.servers.entries) :
    (∃ table, RouteTable.tryNew pingora { config with servers := servers } = .ok table) ↔
      ¬Refused pingora raw := by
  rw [RouteTable.tryNew_isOk_iff]
  simp only [KeyMap.get_eq_of_perm reordered, ProxyConfigResolved.tryFrom_servers_get resolved]
  constructor
  · rintro made ⟨server, mem, names, group, last, e, refused⟩
    obtain ⟨name, listed⟩ := List.exists_mem_of_ne_nil _ names
    obtain ⟨lb, ok⟩ := made name _ ⟨server, mem, listed, group, last, rfl⟩
    rw [refused] at ok
    cases ok
  · rintro accepted name _ ⟨server, mem, listed, group, last, rfl⟩
    cases made : pingora.tryFromIter group.servers with
    | ok lb => exact ⟨lb, rfl⟩
    | error e =>
      exact absurd ⟨server, mem, List.ne_nil_of_mem listed, group, last, e, made⟩ accepted

/-- The start from an accepted configuration, with its servers in any order, returns
exactly when the configuration has no rate limit of zero requests, or has addresses
that are refused first. -/
theorem startUp_returns_iff (resolved : ProxyConfigResolved.tryFrom exist raw = .ok config)
    (reordered : servers.entries.Perm config.servers.entries) :
    (∀ p, tryNew pingora { config with servers := servers } ≠ .panic p) ↔
      (∀ rl, raw.global.rateLimit = some rl → 0 < rl.maxRequests) ∨ Refused pingora raw := by
  have limit : (∀ rl, config.global.rateLimit = some rl → 0 < rl.maxRequests) ↔
      ∀ rl, raw.global.rateLimit = some rl → 0 < rl.maxRequests := by
    rw [(ProxyConfigResolved.tryFrom_resolves resolved).rateLimit]
    cases raw.global.rateLimit <;> simp
  rw [tryNew_returns_iff, routeTable_isOk_iff resolved reordered, limiterOf_isOk_iff, limit]
  constructor
  · intro ready
    by_cases refused : Refused pingora raw
    · exact .inr refused
    · exact .inl (ready refused)
  · rintro (pos | refused)
    · exact fun _ => pos
    · exact fun accepted => absurd refused accepted

theorem startUp_returns_iff_tenants :
    (∀ p, tryNew .roundRobin ⟨tenantsGlobal, tenantServersSwapped⟩ ≠ .panic p) ↔
      (∀ rl, tenants.global.rateLimit = some rl → 0 < rl.maxRequests) ∨
        Refused .roundRobin tenants :=
  startUp_returns_iff tenants_resolved (.swap _ _ _)

/-- A limit of zero requests is accepted, and the start panics. -/
theorem startUp_panics :
    ¬∀ (exist : FileSystem) (raw : SimpleProxyConfig) (config : ProxyConfigResolved),
      ProxyConfigResolved.tryFrom exist raw = .ok config →
        ∀ p, tryNew .roundRobin config ≠ .panic p := by
  intro returns
  exact returns (fun _ => false) ⟨⟨8080, none, some ⟨0, 60⟩⟩, [], []⟩ _ rfl .maxRequestsZero rfl

end StartUp

/-! ## The cutoff -/

section Cutoff

/-- At the given reading no call on the limiter panics, and no request does. -/
structure Returns (proxy : SimpleProxy) (limiter : RateLimiter) (now : Instant) : Prop where
  allow : ∀ key, ∃ answer, limiter.allow key now = .ok answer
  evictStale : ∃ limiter', limiter.evictStale now = .ok limiter'
  requestFilter : ∀ session ctx p, (proxy.requestFilter session ctx now).outcome ≠ .panic p

variable {proxy : SimpleProxy} {limiter limiter₀ : RateLimiter} {now : Instant}

theorem allow_isOk_iff {key : String} : (∃ answer, limiter.allow key now = .ok answer) ↔
    (now.checkedSub limiter.window).isSome := by
  unfold RateLimiter.allow
  cases now.checkedSub limiter.window <;> simp

theorem evictStale_isOk_iff : (∃ limiter', limiter.evictStale now = .ok limiter') ↔
    (now.checkedSub limiter.window).isSome := by
  unfold RateLimiter.evictStale
  cases now.checkedSub limiter.window <;> simp

/-- A request panics only in the call of `allow`. -/
theorem allow_of_requestFilter_panic {session : Session} {ctx : ProxyContext} {p : Panic}
    (panics : (proxy.requestFilter session ctx now).outcome = .panic p) :
    ∃ l, proxy.rateLimiter = some l ∧ ∃ p, l.allow (limitKey session) now = .error p := by
  rcases proxy.requestFilter_cases session ctx now with
    ⟨-, reply⟩ | ⟨l, p, held, -, failed, -⟩ | ⟨_, _, -, -, -, reply⟩ |
    ⟨_, _, written, _, -, -, -, -, reply⟩
  · rw [reply] at panics
    cases panics
  · exact ⟨l, held, p, failed⟩
  · rw [reply] at panics
    cases panics
  · rw [reply] at panics
    exact absurd panics (refusal_ne_panic written p)

/-- All calls return when one of them does. -/
theorem returns_iff (held : proxy.rateLimiter = some limiter) :
    proxy.Returns limiter now ↔ (now.checkedSub limiter.window).isSome := by
  refine ⟨fun returns => allow_isOk_iff.mp (returns.allow ""), fun fits => ?_⟩
  have allows : ∀ key, ∃ answer, limiter.allow key now = .ok answer :=
    fun key => allow_isOk_iff.mpr fits
  refine ⟨allows, evictStale_isOk_iff.mpr fits, fun session ctx p panics => ?_⟩
  obtain ⟨l, held', p, failed⟩ := allow_of_requestFilter_panic panics
  obtain rfl : limiter = l := Option.some.inj (held.symm.trans held')
  obtain ⟨answer, ok⟩ := allows (limitKey session)
  rw [failed] at ok
  cases ok

/-- In every state that calls lead a limiter of a configuration to, all calls return
at a reading if and only if the window is no longer than the time from the earliest
instant. -/
theorem limiter_returns_iff (rl : RateLimitConfig)
    (new : RateLimiter.new (RateLimitConfigResolved.fromConfig rl).maxRequests
      (RateLimitConfigResolved.fromConfig rl).window = .ok limiter₀)
    {hist : List RateLimiter.Event} (run : Run RateLimiter.Step limiter₀ hist limiter)
    (held : proxy.rateLimiter = some limiter) (now : Instant) :
    proxy.Returns limiter now ↔ (rl.windowSecs.toNat : ℤ) ≤ now.secs + 2 ^ 63 := by
  rw [returns_iff held, (RateLimiter.tracks_run new run).window]
  exact Instant.checkedSub_fromSecs_isSome_iff

theorem limiter_returns_iff_minute : (limitedBy ⟨1, .fromSecs 60, ∅⟩).Returns ⟨1, .fromSecs 60, ∅⟩
      (.ofSecs 100 (by decide)) ↔
    ((60 : UInt64).toNat : ℤ) ≤ (Instant.ofSecs 100 (by decide)).secs + 2 ^ 63 :=
  limiter_returns_iff ⟨1, 60⟩ rfl .nil rfl _

/-- A window of `2 ^ 64 - 1` seconds: every call panics. -/
theorem limiter_panics :
    ¬∀ (rl : RateLimitConfig) (limiter : RateLimiter) (now : Instant), 0 < rl.maxRequests →
      RateLimiter.new rl.maxRequests (.fromSecs rl.windowSecs) = .ok limiter →
        (limitedBy limiter).Returns limiter now := by
  intro returns
  have fits := (returns_iff rfl).mp
    (returns ⟨1, 18446744073709551615⟩ _ (.ofSecs 100 (by decide)) (by decide) rfl)
  exact absurd (Instant.checkedSub_fromSecs_isSome_iff.mp fits) (by decide)

end Cutoff

end SimpleProxy

end SimplyProxy
