import SimplyProxy.Conf.Yaml
import SimplyProxy.Proxy.Contract
import SimplyProxy.Proxy.Panics

/-!
# From the command line to the proxy

`main` of `main.rs` up to `run_forever`, which reads the certificates and binds the port. The
iteration order of the map of servers is a parameter, and so is what makes the TLS settings of a
listener.

1. `main_exact`: which configuration files bring `main` to `run_forever`, and with what listener.
2. `main_served`: the proxy that it runs keeps what its file says, in every run.
-/

namespace SimplyProxy
open Runs Serving DataFormat

structure TlsSettings where
  cert : String
  key : String
  h2 : Bool

def TlsSettings.enableH2 (settings : TlsSettings) : TlsSettings := { settings with h2 := true }

/-- What `main` takes from outside. -/
structure Environment (N : Type) where
  yaml : SerdeYaml N
  disk : Disk
  pingora : Pingora
  intermediate : String → String → Except String TlsSettings
  /-- The order in which the servers are visited. -/
  order : KeyMap String ServerConfigResolved → KeyMap String ServerConfigResolved
  reordered : ∀ servers, (order servers).entries.Perm servers.entries

inductive StartError
  | load (error : LoadError)
  | tls (text : String)
  | proxy (text : String)

/-- What `run_forever` is called on: the proxy with its listener, and the health service. -/
structure Server where
  caFile : Option String
  proxyAddr : String
  tlsSettings : Option TlsSettings
  proxy : SimpleProxy
  healthService : RouteTable

variable {N : Type} (env : Environment N)

def tlsSettings (global : GlobalConfigResolved) : Except String (Option TlsSettings) :=
  match global.tls with
  | none => .ok none
  | some tls => do
    let settings ← env.intermediate tls.cert tls.key
    return some settings.enableH2

def main (config : String) : Outcome StartError Server :=
  match ProxyConfigResolved.load env.yaml env.disk config with
  | .error e => .err (.load e)
  | .ok config =>
    let caFile := config.global.tls.bind TlsConfigResolved.ca
    match tlsSettings env config.global with
    | .error e => .err (.tls e)
    | .ok tlsSettings =>
      let proxyAddr := "0.0.0.0:" ++ toString config.global.port
      match SimpleProxy.tryNew env.pingora
          { config with servers := env.order config.servers } with
      | .err e => .err (.proxy e)
      | .panic p => .panic p
      | .ok rp => .ok ⟨caFile, proxyAddr, tlsSettings, rp, rp.routeTable⟩

/-! ## Up to `run_forever` -/

/-- The configuration takes `main` to `run_forever`. -/
structure Startable (raw : SimpleProxyConfig) : Prop where
  wellFormed : raw.WellFormed env.disk.exist
  tls : ∀ tls, raw.global.tls = some tls →
    ∃ settings, env.intermediate tls.cert tls.key = .ok settings
  addresses : ¬SimpleProxy.Refused env.pingora raw
  limit : ∀ rl, raw.global.rateLimit = some rl → 0 < rl.maxRequests

/-- The listener is configured as the file says, with TLS and HTTP/2 if the file has certificates,
and the health service checks the routes of the proxy. -/
structure ListensAs (raw : SimpleProxyConfig) (server : Server) : Prop where
  address : server.proxyAddr = "0.0.0.0:" ++ toString raw.global.port
  ca : server.caFile = raw.global.tls.bind TlsConfig.ca
  plain : raw.global.tls = none → server.tlsSettings = none
  tls : ∀ tls, raw.global.tls = some tls → ∃ settings,
    env.intermediate tls.cert tls.key = .ok settings ∧
      server.tlsSettings = some settings.enableH2
  checked : server.healthService = server.proxy.routeTable

variable {env} {raw : SimpleProxyConfig} {config : ProxyConfigResolved} {file : String}
  {server : Server}

/-- The parts of a start. -/
theorem main_eq_ok : main env file = .ok server ↔
    ∃ config tls rp, ProxyConfigResolved.load env.yaml env.disk file = .ok config ∧
      tlsSettings env config.global = .ok tls ∧
      SimpleProxy.tryNew env.pingora { config with servers := env.order config.servers } =
        .ok rp ∧
      ⟨config.global.tls.bind TlsConfigResolved.ca, "0.0.0.0:" ++ toString config.global.port, tls,
        rp, rp.routeTable⟩ = server := by
  unfold main
  cases loaded : ProxyConfigResolved.load env.yaml env.disk file with
  | error e => simp
  | ok config =>
    cases set : tlsSettings env config.global with
    | error e => simp [set]
    | ok tls =>
      cases made : SimpleProxy.tryNew env.pingora
          { config with servers := env.order config.servers } with
      | err e => simp [set, made]
      | panic p => simp [set, made]
      | ok rp => simp [set, made]

theorem tlsSettings_isOk_iff {global : GlobalConfigResolved} :
    (∃ tls, tlsSettings env global = .ok tls) ↔ ∀ tls, global.tls = some tls →
      ∃ settings, env.intermediate tls.cert tls.key = .ok settings := by
  unfold tlsSettings
  cases global.tls with
  | none => simp
  | some tls => cases made : env.intermediate tls.cert tls.key <;> simp [made]

/-- A proxy is made exactly when no addresses are refused and the limit lets requests pass. -/
theorem tryNew_isOk_iff (resolved : ProxyConfigResolved.tryFrom env.disk.exist raw = .ok config) :
    (∃ rp, SimpleProxy.tryNew env.pingora { config with servers := env.order config.servers } =
        .ok rp) ↔
      ¬SimpleProxy.Refused env.pingora raw ∧
        ∀ rl, raw.global.rateLimit = some rl → 0 < rl.maxRequests := by
  have limit : (∀ rl, config.global.rateLimit = some rl → 0 < rl.maxRequests) ↔
      ∀ rl, raw.global.rateLimit = some rl → 0 < rl.maxRequests := by
    rw [(ProxyConfigResolved.tryFrom_resolves resolved).rateLimit]
    cases raw.global.rateLimit <;> simp
  rw [← SimpleProxy.routeTable_isOk_iff resolved (env.reordered config.servers), ← limit]
  have limiter : (∃ limiter,
      SimpleProxy.limiterOf { config with servers := env.order config.servers } = .ok limiter) ↔
        ∀ rl, config.global.rateLimit = some rl → 0 < rl.maxRequests :=
    SimpleProxy.limiterOf_isOk_iff
  rw [← limiter]
  unfold SimpleProxy.tryNew
  cases RouteTable.tryNew env.pingora { config with servers := env.order config.servers } with
  | error e => simp
  | ok table =>
    cases SimpleProxy.limiterOf { config with servers := env.order config.servers } <;> simp

theorem listensAs_of_main {tls : Option TlsSettings} {rp : SimpleProxy}
    (resolves : Resolves raw config) (set : tlsSettings env config.global = .ok tls) :
    ListensAs env raw ⟨config.global.tls.bind TlsConfigResolved.ca,
      "0.0.0.0:" ++ toString config.global.port, tls, rp, rp.routeTable⟩ := by
  refine ⟨by rw [resolves.port], ?_, fun none => ?_, fun t some => ?_, rfl⟩
  · rw [resolves.tls]
    cases raw.global.tls <;> rfl
  · unfold tlsSettings at set
    rw [resolves.tls, none] at set
    exact (Except.ok.inj set).symm
  · unfold tlsSettings at set
    rw [resolves.tls, some] at set
    obtain ⟨settings, made, equal⟩ := bind_eq_ok.mp set
    exact ⟨settings, made, (Except.ok.inj equal).symm⟩

/-- In every run of the proxy that `main` makes from a file, at readings that never go back, every
request and every attempt to reach an upstream ends as the file says. -/
theorem main_served {rotation : Rotation} {checks : HealthChecks}
    (selection : env.pingora = rotation.toPingora) (documented : env.pingora.Documented)
    (holds : ∀ raw, SimpleProxyConfig.fromYamlFile env.yaml env.disk file = .ok raw →
      ∀ group ∈ raw.upstreams, env.pingora.Holds group.servers)
    (static : checks.Static) (started : main env file = .ok server)
    {before after : List Serving.Event} {e : Serving.Event} {s : Serving.State}
    (run : Run (Serving.Step rotation checks) (Serving.start server.proxy) (before ++ e :: after) s)
    (ordered : (readings (before ++ e :: after)).Pairwise (· ≤ ·)) :
    ∃ raw, SimpleProxyConfig.fromYamlFile env.yaml env.disk file = .ok raw ∧
      Promised raw before e := by
  obtain ⟨config, tls, rp, loaded, -, made, rfl⟩ := main_eq_ok.mp started
  obtain ⟨raw, read, resolved⟩ := ProxyConfigResolved.load_eq_ok.mp loaded
  have holds := holds raw read
  rw [selection] at made documented holds
  exact ⟨raw, read, promised_run documented static holds resolved (env.reordered config.servers)
    made run ordered⟩

/-- The two tenants, and one request each minute. -/
def oneRequest : SimpleProxyConfig :=
  { SimpleProxy.tenants with global := ⟨8080, none, some ⟨1, 60⟩⟩ }

/-- A disk with the file of the two tenants. -/
def tenantsEnv : Environment JsonText.Doc where
  yaml := SimpleProxyConfig.flow
  disk := SimpleProxyConfig.diskWith "proxy.yml" (SimpleProxyConfig.flow.toText
    ((SimpleProxyConfig.codec SimpleProxyConfig.flow.toFormat).write oneRequest))
  pingora := .roundRobin
  intermediate cert key := .ok ⟨cert, key, false⟩
  order servers := servers
  reordered _ := .refl _

def oneRequestProxy : SimpleProxy where
  config := ⟨⟨8080, none, some ⟨1, .fromSecs 60⟩⟩, SimpleProxy.tenantServers⟩
  routeTable := SimpleProxy.tenantsProxy.routeTable
  rateLimiter := some ⟨1, .fromSecs 60, ∅⟩

def tenantsServer : Server :=
  ⟨none, "0.0.0.0:8080", none, oneRequestProxy, oneRequestProxy.routeTable⟩

theorem tenants_started : main tenantsEnv "proxy.yml" = .ok tenantsServer := by
  have fits : oneRequest.Fits := by
    simp [SimpleProxyConfig.Fits, oneRequest, SimpleProxy.tenants]
  have read : SimpleProxyConfig.fromYamlFile tenantsEnv.yaml tenantsEnv.disk "proxy.yml" =
      .ok oneRequest :=
    SimpleProxyConfig.fromYamlFile_eq_ok.mpr ⟨_, rfl, SimpleProxyConfig.fromYamlStr_eq_ok.mpr
      ⟨_, SimpleProxyConfig.flow.fromText_toText _, Codec.read_write _ _ fits⟩⟩
  exact main_eq_ok.mpr ⟨_, none, oneRequestProxy,
    ProxyConfigResolved.load_eq_ok.mpr ⟨_, read, rfl⟩, rfl, rfl, rfl⟩

def firstRequest : Serving.Event :=
  .filter 0 SimpleProxy.tenantSession (.ofSecs 310 (by decide)) (.ok false)

/-- Ten seconds later. -/
def secondRequest : Serving.Event :=
  .filter 1 SimpleProxy.tenantSession (.ofSecs 320 (by decide)) (.ok true)

def firstAttempt : Serving.Event := .peer 0 "b.com" (.ok ⟨"127.0.0.1:3002", true, "b.com", 2, 2⟩)

/-- The second request is over the limit. The first one is sent on. -/
theorem main_served_tenants :
    (∃ raw, SimpleProxyConfig.fromYamlFile tenantsEnv.yaml tenantsEnv.disk "proxy.yml" = .ok raw ∧
      Promised raw [firstRequest] secondRequest) ∧
    ∃ raw, SimpleProxyConfig.fromYamlFile tenantsEnv.yaml tenantsEnv.disk "proxy.yml" = .ok raw ∧
      Promised raw [firstRequest, secondRequest] firstAttempt := by
  obtain ⟨s, run⟩ : ∃ s, Run (Serving.Step .roundRobin passing) (Serving.start tenantsServer.proxy)
      ([firstRequest] ++ secondRequest :: [firstAttempt]) s :=
    ⟨_, ((Run.nil.snoc (filter_step rfl (by decide +kernel))).snoc
      (filter_step (by decide +kernel) (by decide +kernel))).snoc ⟨.peer 0, rfl⟩⟩
  have run' : Run (Serving.Step .roundRobin passing) (Serving.start tenantsServer.proxy)
      ([firstRequest, secondRequest] ++ firstAttempt :: []) s := run
  have holds : ∀ raw, SimpleProxyConfig.fromYamlFile tenantsEnv.yaml tenantsEnv.disk "proxy.yml" =
      .ok raw → ∀ group ∈ raw.upstreams, tenantsEnv.pingora.Holds group.servers :=
    fun _ _ _ _ => Pingora.roundRobin_holds _
  exact ⟨main_served rfl Pingora.roundRobin_documented holds passing_static tenants_started run
      (by decide),
    main_served rfl Pingora.roundRobin_documented holds passing_static tenants_started run'
      (by decide)⟩

end SimplyProxy
