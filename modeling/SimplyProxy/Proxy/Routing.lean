import SimplyProxy.Proxy.Requests

/-!
# From the configuration file to the upstream peer

The route of a request goes through the resolution of the configuration, the route
table built from it, the context of the request and the selection of a backend.

`routing_isolation`: together they send a request to the upstream group of the one
server block that lists its host, to a healthy backend, or refuse it.

The route table is built from a map without an order, so the theorem is about every
order of the resolved servers. It is about every proxy with the route table that was
built, which are all that serving requests leads to (`serve_routeTable`).
-/

namespace SimplyProxy
namespace SimpleProxy

/-! ## One request -/

/-- A request that passes has its route looked up, whatever its context held. -/
theorem requestFilter_passed {self : SimpleProxy} {session : Session} {ctx : ProxyContext}
    {now : Instant} (passed : (self.requestFilter session ctx now).outcome = .ok false) :
    (self.requestFilter session ctx now).ctx = self.route session ctx := by
  rcases self.requestFilter_cases session ctx now with
    ⟨-, reply⟩ | ⟨_, _, -, -, -, reply⟩ | ⟨_, _, -, -, -, reply⟩ |
    ⟨_, _, written, _, -, -, -, -, reply⟩
  · rw [reply]
  · rw [reply] at passed
    cases passed
  · rw [reply]
  · rw [reply] at passed
    exact absurd passed (refusal_ne_passed written)

/-- The host of a request. -/
def hostOf (session : Session) : String :=
  (getHostPort (session.getHeader "host") session.reqHeader.uri).1

theorem route_routeEntry (self : SimpleProxy) (session : Session) (ctx : ProxyContext) :
    (self.route session ctx).routeEntry = self.routeTable.get (hostOf session) := rfl

theorem route_host (self : SimpleProxy) (session : Session) (ctx : ProxyContext) :
    (self.route session ctx).host = hostOf session := rfl

/-- The peer of a route: none without an entry; otherwise a healthy backend of the
entry, with the entry's TLS flag and the host as SNI. -/
theorem upstreamPeer_cases {pingora : Pingora} (documented : pingora.Documented)
    (health : Backend → Bool) (next : Nat) (ctx : ProxyContext) :
    (ctx.routeEntry = none ∧
      upstreamPeer pingora health next ctx = .error ⟨.httpStatus 404, .upstream⟩) ∨
    ∃ entry, ctx.routeEntry = some entry ∧
      (upstreamPeer pingora health next ctx = .error ⟨.httpStatus 502, .upstream⟩ ∨
        ∃ peer, upstreamPeer pingora health next ctx = .ok peer ∧
          ⟨peer.address⟩ ∈ entry.upstream.backends ∧ health ⟨peer.address⟩ = true ∧
          peer.tls = entry.tls ∧ peer.sni = ctx.host) := by
  unfold upstreamPeer
  cases ctx.routeEntry with
  | none => exact .inl ⟨rfl, rfl⟩
  | some entry =>
    refine .inr ⟨entry, rfl, ?_⟩
    cases selected : entry.select pingora health next with
    | none => exact .inl (by simp [selected])
    | some backend =>
      obtain ⟨held, healthy⟩ := RouteEntry.select_eq_some documented selected
      exact .inr ⟨(HttpPeer.new backend.addr entry.tls ctx.host).setHttpVersion 2 2,
        by simp only [selected], held, healthy, rfl, rfl⟩

/-- No peer: 404 without an entry, and 502 with one. -/
theorem upstreamPeer_eq_error {pingora : Pingora} {health : Backend → Bool} {next : Nat}
    {ctx : ProxyContext} {kind : ProxyError}
    (h : upstreamPeer pingora health next ctx = .error kind) :
    (ctx.routeEntry = none ∧ kind = ⟨.httpStatus 404, .upstream⟩) ∨
      ∃ entry, ctx.routeEntry = some entry ∧ kind = ⟨.httpStatus 502, .upstream⟩ := by
  unfold upstreamPeer at h
  split at h
  · next absent => exact .inl ⟨absent, (Except.error.inj h).symm⟩
  · next entry present =>
    refine .inr ⟨entry, present, ?_⟩
    split at h
    · exact (Except.error.inj h).symm
    · cases h

/-! ## From the configuration to the route table -/

variable {pingora : Pingora} {exist : FileSystem} {raw : SimpleProxyConfig}
  {config : ProxyConfigResolved} {servers : KeyMap String ServerConfigResolved}
  {proxy : SimpleProxy}

theorem tryNew_eq_ok (made : tryNew pingora config = .ok proxy) :
    RouteTable.tryNew pingora config = .ok proxy.routeTable ∧
      limiterOf config = .ok proxy.rateLimiter ∧ proxy.config = config := by
  unfold tryNew at made
  split at made
  · cases made
  · next table built =>
    split at made
    · cases made
    · next limiter limits =>
      cases made
      exact ⟨built, limits, rfl⟩

/-- A route is one of the block that lists the name: it holds the backends of the
last group with the name that the block gives. -/
theorem routeTable_get (resolved : ProxyConfigResolved.tryFrom exist raw = .ok config)
    (reordered : servers.entries.Perm config.servers.entries)
    (made : tryNew pingora { config with servers := servers } = .ok proxy) {name : String}
    {entry : RouteEntry} (found : proxy.routeTable.get name = some entry) :
    ∃ server ∈ raw.servers, name ∈ server.serverName ∧ ∃ group,
      LastNamed raw.upstreams server.upstream group ∧ entry.tls = server.tls.getD false ∧
        (pingora.Holds group.servers →
          ∀ backend, backend ∈ entry.upstream.backends ↔ backend.addr ∈ group.servers) := by
  obtain ⟨server', configured, new⟩ := (RouteTable.tryNew_get (tryNew_eq_ok made).1).mp found
  rw [KeyMap.get_eq_of_perm reordered,
    ProxyConfigResolved.tryFrom_servers_get resolved] at configured
  obtain ⟨server, mem, listed, group, last, rfl⟩ := configured
  obtain ⟨tls, holds⟩ := RouteEntry.tryNew_eq_ok new
  exact ⟨server, mem, listed, group, last, tls, holds⟩

/-- Every listed name has a route. -/
theorem routeTable_of_listed (resolved : ProxyConfigResolved.tryFrom exist raw = .ok config)
    (reordered : servers.entries.Perm config.servers.entries)
    (made : tryNew pingora { config with servers := servers } = .ok proxy) {server : ServerConfig}
    (mem : server ∈ raw.servers) {name : String} (listed : name ∈ server.serverName) :
    ∃ entry, proxy.routeTable.get name = some entry := by
  obtain ⟨group, -, configured⟩ :=
    (ProxyConfigResolved.tryFrom_resolves resolved).blocks server mem name listed
  rw [← KeyMap.get_eq_of_perm reordered] at configured
  obtain ⟨entry, -, found⟩ := RouteTable.tryNew_get_of_get (tryNew_eq_ok made).1 configured
  exact ⟨entry, found⟩

theorem unlisted_of_get_eq_none (resolved : ProxyConfigResolved.tryFrom exist raw = .ok config)
    (reordered : servers.entries.Perm config.servers.entries)
    (made : tryNew pingora { config with servers := servers } = .ok proxy) {name : String}
    (absent : proxy.routeTable.get name = none) :
    ∀ server ∈ raw.servers, name ∉ server.serverName := by
  intro server mem listed
  obtain ⟨entry, found⟩ := routeTable_of_listed resolved reordered made mem listed
  rw [absent] at found
  cases found

/-! ## The whole way -/

/-- `server` is the only block that lists `name`. -/
def OnlyLister (raw : SimpleProxyConfig) (name : String) (server : ServerConfig) : Prop :=
  ∃ before after, raw.servers = before ++ server :: after ∧ name ∈ server.serverName ∧
    ∀ other ∈ before ++ after, name ∉ other.serverName

theorem onlyLister_of_nodup (distinct : (raw.servers.flatMap ServerConfig.serverName).Nodup)
    {server : ServerConfig} (mem : server ∈ raw.servers) {name : String}
    (listed : name ∈ server.serverName) : OnlyLister raw name server := by
  obtain ⟨before, after, split⟩ := List.append_of_mem mem
  refine ⟨before, after, split, listed, fun other hother lists => ?_⟩
  rw [split, List.flatMap_append, List.flatMap_cons, List.nodup_append,
    List.nodup_append] at distinct
  obtain ⟨-, ⟨-, -, apartAfter⟩, apartBefore⟩ := distinct
  rcases List.mem_append.mp hother with hother | hother
  · exact apartBefore name (List.mem_flatMap.mpr ⟨other, hother, lists⟩) name
      (List.mem_append_left _ listed) rfl
  · exact apartAfter name listed name (List.mem_flatMap.mpr ⟨other, hother, lists⟩) rfl

/-- What a configuration says about the peer for a host: 404 when no block lists the
host. Otherwise exactly one block does, and the peer is a healthy backend of the
group that this block names, with the TLS flag of the block and the host as SNI,
or there is none. -/
structure Isolates (raw : SimpleProxyConfig) (host : String) (health : Backend → Bool)
    (answer : Except ProxyError HttpPeer) : Prop where
  unlisted : (∀ server ∈ raw.servers, host ∉ server.serverName) →
    answer = .error ⟨.httpStatus 404, .upstream⟩
  listed : (∃ server ∈ raw.servers, host ∈ server.serverName) →
    ∃ server group, OnlyLister raw host server ∧ LastNamed raw.upstreams server.upstream group ∧
      (answer = .error ⟨.httpStatus 502, .upstream⟩ ∨
        ∃ peer, answer = .ok peer ∧ peer.address ∈ group.servers ∧ health ⟨peer.address⟩ = true ∧
          peer.tls = server.tls.getD false ∧ peer.sni = host)

/-- A proxy made from a resolved configuration, with its servers in any order, and
any later state of it: every request that passes gets the peer that the
configuration says. -/
theorem routing_isolation (documented : pingora.Documented)
    (holds : ∀ group ∈ raw.upstreams, pingora.Holds group.servers)
    (resolved : ProxyConfigResolved.tryFrom exist raw = .ok config)
    (reordered : servers.entries.Perm config.servers.entries)
    (made : tryNew pingora { config with servers := servers } = .ok proxy) {self : SimpleProxy}
    (unchanged : self.routeTable = proxy.routeTable) (session : Session) (ctx : ProxyContext)
    (now : Instant) (passed : (self.requestFilter session ctx now).outcome = .ok false)
    (health : Backend → Bool) (next : Nat) :
    Isolates raw (hostOf session) health
      (upstreamPeer pingora health next (self.requestFilter session ctx now).ctx) := by
  rw [requestFilter_passed passed]
  have found := route_routeEntry self session ctx
  rw [unchanged] at found
  rcases upstreamPeer_cases documented health next (self.route session ctx) with
    ⟨absent, notFound⟩ | ⟨entry, present, answer⟩
  · -- no route: a listed host would have one
    have unlisted := unlisted_of_get_eq_none resolved reordered made (found.symm.trans absent)
    exact ⟨fun _ => notFound, fun ⟨server, mem, listed⟩ => absurd listed (unlisted server mem)⟩
  · -- a route: it is that of a block which lists the host, and no other block does
    obtain ⟨server, mem, listed, group, last, tls, backends⟩ :=
      routeTable_get resolved reordered made (found.symm.trans present)
    have backends := backends (holds group (mem_of_lastNamed last).1)
    refine ⟨fun unlisted => absurd listed (unlisted server mem), fun _ => ?_⟩
    have only := onlyLister_of_nodup (ProxyConfigResolved.tryFrom_wellFormed resolved).distinct mem
      listed
    refine ⟨server, group, only, last, answer.imp_right ?_⟩
    rintro ⟨peer, chosen, held, healthy, peerTls, sni⟩
    exact ⟨peer, chosen, (backends _).mp held, healthy, peerTls.trans tls,
      sni.trans (route_host self session ctx)⟩

/-- Two tenants with a group each. -/
def tenants : SimpleProxyConfig where
  global := ⟨8080, none, some ⟨100, 60⟩⟩
  servers := [⟨["a.com"], "a", none⟩, ⟨["b.com"], "b", some true⟩]
  upstreams := [⟨"a", ["127.0.0.1:3001"]⟩, ⟨"b", ["127.0.0.1:3002"]⟩]

def tenantsGlobal : GlobalConfigResolved := ⟨8080, none, some ⟨100, .fromSecs 60⟩⟩

def serverA : ServerConfigResolved := ⟨false, ⟨["127.0.0.1:3001"]⟩⟩

def serverB : ServerConfigResolved := ⟨true, ⟨["127.0.0.1:3002"]⟩⟩

/-- What they resolve to. -/
def tenantServers : KeyMap String ServerConfigResolved :=
  AList.insert "b.com" serverB (AList.insert "a.com" serverA ∅)

/-- The same in the other order. -/
def tenantServersSwapped : KeyMap String ServerConfigResolved :=
  AList.insert "a.com" serverA (AList.insert "b.com" serverB ∅)

theorem tenants_resolved : ProxyConfigResolved.tryFrom (fun _ => false) tenants =
    .ok ⟨tenantsGlobal, tenantServers⟩ := rfl

/-- The proxy of the two tenants. -/
def tenantsProxy : SimpleProxy where
  config := ⟨tenantsGlobal, tenantServers⟩
  routeTable := AList.insert "a.com"
    ⟨⟨[⟨"127.0.0.1:3001"⟩], some .tcp, some healthCheckInterval⟩, false⟩
    (AList.insert "b.com" ⟨⟨[⟨"127.0.0.1:3002"⟩], some .tcp, some healthCheckInterval⟩, true⟩ ∅)
  rateLimiter := some ⟨100, .fromSecs 60, ∅⟩

theorem tenantsProxy_made :
    tryNew .roundRobin ⟨tenantsGlobal, tenantServers⟩ = .ok tenantsProxy := rfl

/-- A request for the second tenant. -/
def tenantSession : Session where
  clientAddr := none
  reqHeader := ⟨⟨none, none, none, "/"⟩, ⟨[("host", .ofText "b.com:8080")]⟩⟩
  writeError := fun _ => none
  written := []

/-- The second of two requests. -/
theorem routing_isolation_tenants :
    ∃ proxy, ProxyConfigResolved.tryFrom (fun _ => false) tenants =
        .ok ⟨tenantsGlobal, tenantServers⟩ ∧
      tryNew .roundRobin ⟨tenantsGlobal, tenantServersSwapped⟩ = .ok proxy ∧
      Isolates tenants (hostOf tenantSession) (fun _ => true)
        (upstreamPeer .roundRobin (fun _ => true) 3
          ((serve proxy [⟨tenantSession, newCtx, .ofSecs 100 (by decide)⟩]).2.requestFilter
            tenantSession newCtx (.ofSecs 101 (by decide))).ctx) := by
  have resolved := tenants_resolved
  have reordered : tenantServersSwapped.entries.Perm tenantServers.entries := .swap _ _ _
  obtain ⟨proxy, made⟩ : ∃ proxy,
      tryNew .roundRobin ⟨tenantsGlobal, tenantServersSwapped⟩ = .ok proxy := ⟨_, rfl⟩
  refine ⟨proxy, resolved, made, ?_⟩
  refine routing_isolation Pingora.roundRobin_documented
    (fun _ _ => Pingora.roundRobin_holds _) resolved reordered made
    (serve_routeTable proxy _) tenantSession newCtx _ ?_ (fun _ => true) 3
  cases made
  decide +kernel

end SimpleProxy

end SimplyProxy
