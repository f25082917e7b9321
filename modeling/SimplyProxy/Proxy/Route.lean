import SimplyProxy.Conf.Resolved
import SimplyProxy.Platform.Pingora

/-!
# The route table

`RouteTable` and `RouteEntry` of `proxy/route.rs`: one load balancer for each
server name of the resolved configuration, and the choice of a healthy backend.
The servers of a configuration are visited in the order in which they are stored,
which stands for any order.
-/

namespace SimplyProxy

def healthCheckInterval : Duration := .fromSecs 1

structure RouteEntry where
  upstream : LoadBalancer
  tls : Bool

abbrev RouteTable := KeyMap String RouteEntry

namespace RouteEntry

def tryNew (pingora : Pingora) (config : ServerConfigResolved) : Except String RouteEntry := do
  let lb ← pingora.tryFromIter config.upstream.servers
  let lb := { lb with
    healthCheck := some .tcp
    healthCheckFrequency := some healthCheckInterval }
  return ⟨lb, config.tls⟩

/-- Accepts the backends that are healthy. -/
def accept (_backend : Backend) (health : Bool) : Bool := health

/-- The backend that `select` returns with the given health of the backends and
reading of the round-robin counter. -/
def select (self : RouteEntry) (pingora : Pingora) (health : Backend → Bool) (next : Nat) :
    Option Backend :=
  pingora.selectWith self.upstream health next [] 32 accept

/-- An entry holds the backends of its server under its TLS flag. -/
theorem tryNew_eq_ok {pingora : Pingora} {config : ServerConfigResolved} {entry : RouteEntry}
    (h : tryNew pingora config = .ok entry) :
    entry.tls = config.tls ∧ (pingora.Holds config.upstream.servers →
      ∀ backend, backend ∈ entry.upstream.backends ↔ backend.addr ∈ config.upstream.servers) := by
  obtain ⟨lb, made, rest⟩ := bind_eq_ok.mp h
  cases rest
  exact ⟨rfl, fun holds => holds lb made⟩

theorem tryNew_isOk_iff {pingora : Pingora} {config : ServerConfigResolved} :
    (∃ entry, tryNew pingora config = .ok entry) ↔
      ∃ lb, pingora.tryFromIter config.upstream.servers = .ok lb := by
  constructor
  · rintro ⟨entry, new⟩
    obtain ⟨lb, made, -⟩ := bind_eq_ok.mp new
    exact ⟨lb, made⟩
  · rintro ⟨lb, made⟩
    exact ⟨_, bind_eq_ok.mpr ⟨lb, made, rfl⟩⟩

/-- What is selected is a healthy backend of the entry. -/
theorem select_eq_some {pingora : Pingora} (documented : pingora.Documented) {self : RouteEntry}
    {health : Backend → Bool} {next : Nat} {backend : Backend}
    (h : self.select pingora health next = some backend) :
    backend ∈ self.upstream.backends ∧ health backend = true :=
  documented.selects _ health next _ _ accept backend h

end RouteEntry

def RouteTable.tryNew (pingora : Pingora) (config : ProxyConfigResolved) :
    Except String RouteTable :=
  KeyMap.mapM (RouteEntry.tryNew pingora) config.servers

/-- A name is routed exactly when it is a configured server, to that server's entry. -/
theorem RouteTable.tryNew_get {pingora : Pingora} {config : ProxyConfigResolved}
    {table : RouteTable} (h : tryNew pingora config = .ok table) {name : String}
    {entry : RouteEntry} : table.get name = some entry ↔ ∃ server,
      config.servers.get name = some server ∧ RouteEntry.tryNew pingora server = .ok entry :=
  KeyMap.get_mapM h

/-- Every configured server has a route. -/
theorem RouteTable.tryNew_get_of_get {pingora : Pingora} {config : ProxyConfigResolved}
    {table : RouteTable} (h : tryNew pingora config = .ok table) {name : String}
    {server : ServerConfigResolved} (configured : config.servers.get name = some server) :
    ∃ entry, RouteEntry.tryNew pingora server = .ok entry ∧ table.get name = some entry :=
  KeyMap.get_mapM_of_get h configured

/-- A table is built exactly when the addresses of every server make a load balancer. -/
theorem RouteTable.tryNew_isOk_iff {pingora : Pingora} {config : ProxyConfigResolved} :
    (∃ table, tryNew pingora config = .ok table) ↔
      ∀ name server, config.servers.get name = some server →
        ∃ lb, pingora.tryFromIter server.upstream.servers = .ok lb := by
  unfold tryNew
  rw [KeyMap.mapM_isOk_iff]
  simp only [RouteEntry.tryNew_isOk_iff]

end SimplyProxy
