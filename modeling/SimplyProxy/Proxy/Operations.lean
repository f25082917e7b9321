import SimplyProxy.Proxy.Routing

/-!
# The proxy in operation

What can happen to a proxy once it is made: a request, a new configuration stored with
`ProxyConfig::update`, and a round of the `HealthService` of `proxy/health.rs`. The
service shares the route table of the proxy.

1. `follows_startUp`: whatever happens, requests are routed and limited by the
   configuration that the proxy was made from. A stored configuration is only given
   back by `get_full`.
2. `update_unfollowed`: after an update the routes are not those of the configuration
   that is stored.
-/

namespace SimplyProxy

/-! ## Operations -/

/-- The two functions of a load balancer that a health check calls: they refresh its
backends and check them. -/
structure HealthChecks where
  update : LoadBalancer → Except String LoadBalancer
  runHealthCheck : LoadBalancer → LoadBalancer

/-- Load balancers with a fixed list of addresses, which is what `try_from_iter` makes,
keep their backends. -/
structure HealthChecks.Static (checks : HealthChecks) : Prop where
  update : ∀ lb lb', checks.update lb = .ok lb' → lb'.backends = lb.backends
  runHealthCheck : ∀ lb, (checks.runHealthCheck lb).backends = lb.backends

namespace HealthService

/-- The check of one entry. The error of a failed update is dropped. -/
def checkEntry (checks : HealthChecks) (entry : RouteEntry) : RouteEntry :=
  let upstream := match checks.update entry.upstream with
    | .ok upstream => upstream
    | .error _ => entry.upstream
  { entry with upstream := checks.runHealthCheck upstream }

/-- One turn of the loop of `start_service`. -/
def round (checks : HealthChecks) (routeTable : RouteTable) : RouteTable :=
  routeTable.retain fun _host entry => some (checkEntry checks entry)

theorem round_get (checks : HealthChecks) (routeTable : RouteTable) (name : String) :
    (round checks routeTable).get name = (routeTable.get name).map (checkEntry checks) := by
  unfold round
  rw [KeyMap.get_retain]
  cases routeTable.get name <;> rfl

theorem checkEntry_backends {checks : HealthChecks} (static : checks.Static) (entry : RouteEntry) :
    (checkEntry checks entry).upstream.backends = entry.upstream.backends := by
  unfold checkEntry
  rw [static.runHealthCheck]
  cases updated : checks.update entry.upstream with
  | error e => rfl
  | ok lb => exact static.update entry.upstream lb updated

end HealthService

namespace SimpleProxy

/-- `ProxyConfig::update` on the configuration of the proxy. -/
def update (self : SimpleProxy) (config : ProxyConfigResolved) : SimpleProxy :=
  { self with config := config }

/-- `ProxyConfig::get_full` on the configuration of the proxy. -/
def getFull (self : SimpleProxy) : ProxyConfigResolved := self.config

inductive Operation
  | request (request : Request)
  | update (config : ProxyConfigResolved)
  | healthRound

def operate (checks : HealthChecks) (self : SimpleProxy) : Operation → SimpleProxy
  | .request r => (self.requestFilter r.session r.ctx r.now).proxy
  | .update config => self.update config
  | .healthRound => { self with routeTable := HealthService.round checks self.routeTable }

/-- The proxy after operations, one after another. -/
def after (checks : HealthChecks) (self : SimpleProxy) (ops : List Operation) : SimpleProxy :=
  ops.foldl (operate checks) self

theorem after_snoc (checks : HealthChecks) (self : SimpleProxy) (ops : List Operation)
    (op : Operation) :
    after checks self (ops ++ [op]) = operate checks (after checks self ops) op := by
  simp [after]

/-! ## Which configuration is followed -/

/-- The configuration stored last. -/
def lastStored (config : ProxyConfigResolved) (ops : List Operation) : ProxyConfigResolved :=
  ops.foldl (fun config op => match op with
    | .update config' => config'
    | _ => config) config

/-- The proxy routes and limits as the configuration says: a route for each of its
servers, with the TLS flag and the addresses of the server, and a limiter with its
settings if it has a rate limit. -/
structure Follows (config : ProxyConfigResolved) (proxy : SimpleProxy) : Prop where
  names : ∀ name, name ∈ proxy.routeTable ↔ name ∈ config.servers
  entries : ∀ name server entry, config.servers.get name = some server →
    proxy.routeTable.get name = some entry → entry.tls = server.tls ∧
      ∀ backend, backend ∈ entry.upstream.backends ↔ backend.addr ∈ server.upstream.servers
  limiter : (proxy.rateLimiter.map fun l => (l.maxRequests, l.window)) =
    config.global.rateLimit.map fun rl => (rl.maxRequests, rl.window)

variable {pingora : Pingora} {checks : HealthChecks} {config : ProxyConfigResolved}
  {proxy : SimpleProxy}

theorem limiterOf_settings {limiter : Option RateLimiter} (h : limiterOf config = .ok limiter) :
    (limiter.map fun l => (l.maxRequests, l.window)) =
      config.global.rateLimit.map fun rl => (rl.maxRequests, rl.window) := by
  unfold limiterOf at h
  cases limit : config.global.rateLimit with
  | none =>
    rw [limit] at h
    cases h
    rfl
  | some rl =>
    rw [limit, Option.mapM_some, map_eq_ok] at h
    obtain ⟨l, new, rfl⟩ := h
    obtain ⟨-, rfl⟩ := RateLimiter.new_eq_ok new
    rfl

/-- A new proxy follows the configuration that it is made from. -/
theorem follows_tryNew (holds : ∀ name server, config.servers.get name = some server →
      pingora.Holds server.upstream.servers)
    (made : tryNew pingora config = .ok proxy) : Follows config proxy := by
  obtain ⟨built, limits, -⟩ := tryNew_eq_ok made
  refine ⟨fun name => ?_, fun name server entry configured found => ?_, limiterOf_settings limits⟩
  · rw [KeyMap.mem_iff_get, KeyMap.mem_iff_get]
    constructor
    · rintro ⟨entry, found⟩
      obtain ⟨server, configured, -⟩ := (RouteTable.tryNew_get built).mp found
      exact ⟨server, configured⟩
    · rintro ⟨server, configured⟩
      obtain ⟨entry, -, found⟩ := RouteTable.tryNew_get_of_get built configured
      exact ⟨entry, found⟩
  · obtain ⟨server', configured', new⟩ := (RouteTable.tryNew_get built).mp found
    obtain rfl : server = server' := Option.some.inj (configured.symm.trans configured')
    obtain ⟨tls, backends⟩ := RouteEntry.tryNew_eq_ok new
    exact ⟨tls, backends (holds name server configured)⟩

/-- A request does not change what is followed. -/
theorem Follows.request (h : Follows config proxy) (r : Request) :
    Follows config (proxy.requestFilter r.session r.ctx r.now).proxy := by
  have sameTable := proxy.requestFilter_routeTable r.session r.ctx r.now
  refine ⟨by rw [sameTable]; exact h.names, by rw [sameTable]; exact h.entries, ?_⟩
  rw [← h.limiter]
  cases held : proxy.rateLimiter with
  | none => simp [requestFilter, held]
  | some l =>
    rcases requestFilter_rateLimiter held r.session r.ctx r.now with
      ⟨-, same⟩ | ⟨answer, l', -, allowed, next⟩
    · rw [same, held]
    · have decides := RateLimiter.allow_decides allowed
      rw [next]
      simp only [Option.map_some, decides.maxRequests, decides.window]

/-- Neither does a round of health checks. -/
theorem Follows.healthRound (h : Follows config proxy) (static : checks.Static) :
    Follows config { proxy with routeTable := HealthService.round checks proxy.routeTable } := by
  refine ⟨fun name => ?_, fun name server entry configured found => ?_, h.limiter⟩
  · rw [← h.names, KeyMap.mem_iff_get, KeyMap.mem_iff_get]
    simp only [HealthService.round_get, Option.map_eq_some_iff]
    constructor
    · rintro ⟨_, entry, found, -⟩
      exact ⟨entry, found⟩
    · rintro ⟨entry, found⟩
      exact ⟨_, entry, found, rfl⟩
  · rw [HealthService.round_get, Option.map_eq_some_iff] at found
    obtain ⟨entry', found', rfl⟩ := found
    rw [HealthService.checkEntry_backends static]
    exact h.entries name server entry' configured found'

/-- Every operation keeps what is followed. -/
theorem Follows.operate (h : Follows config proxy) {op : Operation}
    (static : op = .healthRound → checks.Static) :
    Follows config (operate checks proxy op) := by
  cases op with
  | request r => exact h.request r
  | update config' => exact ⟨h.names, h.entries, h.limiter⟩
  | healthRound => exact h.healthRound (static rfl)

theorem Follows.after (h : Follows config proxy) {ops : List Operation}
    (static : .healthRound ∈ ops → checks.Static) : Follows config (after checks proxy ops) := by
  induction ops using List.reverseRecOn with
  | nil => exact h
  | append_singleton ops op ih =>
    rw [after_snoc]
    refine (ih fun mem => static (List.mem_append_left _ mem)).operate fun round => ?_
    exact static (by simp [round])

/-- Only an update changes the stored configuration. -/
theorem getFull_operate (checks : HealthChecks) (proxy : SimpleProxy) (op : Operation) :
    (operate checks proxy op).getFull = lastStored proxy.getFull [op] := by
  cases op with
  | request r =>
    show (proxy.requestFilter r.session r.ctx r.now).proxy.config = proxy.config
    obtain ⟨limiter, changed⟩ := proxy.requestFilter_proxy r.session r.ctx r.now
    rw [changed]
  | update config' => rfl
  | healthRound => rfl

theorem getFull_after (checks : HealthChecks) (proxy : SimpleProxy) (ops : List Operation) :
    (after checks proxy ops).getFull = lastStored proxy.getFull ops := by
  induction ops using List.reverseRecOn with
  | nil => rfl
  | append_singleton ops op ih =>
    rw [after_snoc, getFull_operate, ih]
    simp [lastStored]

/-- In every state that operations lead to, the proxy follows the configuration that it
was made from, each request that passes gets its route from there, and `get_full` gives
the configuration stored last. -/
theorem follows_startUp (holds : ∀ name server, config.servers.get name = some server →
      pingora.Holds server.upstream.servers)
    (made : tryNew pingora config = .ok proxy) (checks : HealthChecks) (ops : List Operation)
    (static : .healthRound ∈ ops → checks.Static) :
    Follows config (after checks proxy ops) ∧
      (∀ r : Request,
        ((after checks proxy ops).requestFilter r.session r.ctx r.now).outcome = .ok false →
          ((after checks proxy ops).requestFilter r.session r.ctx r.now).ctx.routeEntry =
            (after checks proxy ops).routeTable.get (hostOf r.session)) ∧
      (after checks proxy ops).getFull = lastStored config ops := by
  refine ⟨(follows_tryNew holds made).after static, fun r passed => ?_, ?_⟩
  · rw [requestFilter_passed passed, route_routeEntry]
  · rw [getFull_after]
    congr 1
    exact (tryNew_eq_ok made).2.2

/-- The tenants without their servers. -/
def noTenants : SimpleProxyConfig := { tenants with servers := [] }

theorem follows_startUp_tenants :
    Follows ⟨tenantsGlobal, tenantServers⟩
        (after ⟨.ok, id⟩ tenantsProxy [.update ⟨tenantsGlobal, ∅⟩, .healthRound]) ∧
      (∀ r : Request,
        ((after ⟨.ok, id⟩ tenantsProxy [.update ⟨tenantsGlobal, ∅⟩, .healthRound]).requestFilter
            r.session r.ctx r.now).outcome = .ok false →
          ((after ⟨.ok, id⟩ tenantsProxy [.update ⟨tenantsGlobal, ∅⟩, .healthRound]).requestFilter
              r.session r.ctx r.now).ctx.routeEntry =
            (after ⟨.ok, id⟩ tenantsProxy [.update ⟨tenantsGlobal, ∅⟩, .healthRound]).routeTable.get
              (hostOf r.session)) ∧
      (after ⟨.ok, id⟩ tenantsProxy [.update ⟨tenantsGlobal, ∅⟩, .healthRound]).getFull =
        lastStored ⟨tenantsGlobal, tenantServers⟩ [.update ⟨tenantsGlobal, ∅⟩, .healthRound] :=
  follows_startUp (fun _ _ _ => Pingora.roundRobin_holds _) tenantsProxy_made _ _ fun _ =>
    ⟨fun _ _ updated => by cases updated; rfl, fun _ => rfl⟩

/-- A configuration without servers is stored, and the route of `a.com` stays. -/
theorem update_unfollowed :
    ¬∀ (checks : HealthChecks) (config : ProxyConfigResolved) (proxy : SimpleProxy)
        (ops : List Operation), tryNew .roundRobin config = .ok proxy → .healthRound ∉ ops →
      (∀ stored, .update stored ∈ ops →
        (∃ exist raw, ProxyConfigResolved.tryFrom exist raw = .ok stored) ∧
          ∃ table, RouteTable.tryNew .roundRobin stored = .ok table) →
        Follows (after checks proxy ops).getFull (after checks proxy ops) := by
  intro follows
  have changed := follows ⟨.ok, id⟩ _ tenantsProxy [.update ⟨tenantsGlobal, ∅⟩]
    tenantsProxy_made (by simp) fun stored mem => by
      obtain rfl : stored = ⟨tenantsGlobal, ∅⟩ := by simpa using mem
      exact ⟨⟨fun _ => false, noTenants, rfl⟩, ∅, rfl⟩
  have routed : "a.com" ∈ tenantsProxy.routeTable := by decide
  have configured := (changed.names "a.com").mp routed
  exact absurd configured (by decide)

end SimpleProxy

end SimplyProxy
