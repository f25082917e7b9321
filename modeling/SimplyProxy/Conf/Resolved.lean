import Mathlib.Data.List.Nodup
import SimplyProxy.Base.KeyMap
import SimplyProxy.Platform.Outcome
import SimplyProxy.Platform.Time

/-!
# The configuration and its resolution

The raw configuration of `conf/raw.rs`, the resolved one of `conf/resolved.rs`
and the way from one to the other. The file system is the set of paths that
exist. A raw configuration is read from YAML, so its paths are Unicode text and
`to_string_lossy` changes nothing.

1. `tryFrom_exact`: resolution accepts exactly the well-formed configurations, and
   what it gives is what they say.
2. `tryFrom_servers_get`: a name is resolved exactly when a block lists it, to the
   resolution of that block.
-/

namespace SimplyProxy

/-! ## Raw -/

structure RateLimitConfig where
  maxRequests : Nat
  windowSecs : UInt64

structure TlsConfig where
  ca : Option String
  cert : String
  key : String

structure GlobalConfig where
  port : UInt16
  tls : Option TlsConfig
  rateLimit : Option RateLimitConfig

/-- A server block: the names it serves and the upstream group it names. -/
structure ServerConfig where
  serverName : List String
  upstream : String
  tls : Option Bool

/-- An upstream group: its name and its addresses. -/
structure UpstreamConfig where
  name : String
  servers : List String

structure SimpleProxyConfig where
  global : GlobalConfig
  servers : List ServerConfig
  upstreams : List UpstreamConfig

/-! ## Resolved -/

structure RateLimitConfigResolved where
  maxRequests : Nat
  window : Duration

structure TlsConfigResolved where
  cert : String
  key : String
  ca : Option String

structure GlobalConfigResolved where
  port : UInt16
  tls : Option TlsConfigResolved
  rateLimit : Option RateLimitConfigResolved

structure UpstreamConfigResolved where
  servers : List String
deriving DecidableEq

structure ServerConfigResolved where
  tls : Bool
  upstream : UpstreamConfigResolved
deriving DecidableEq

structure ProxyConfigResolved where
  global : GlobalConfigResolved
  servers : KeyMap String ServerConfigResolved

/-! ## Resolution -/

/-- The ways in which resolution fails. -/
inductive ConfError
  | certMissing (path : String)
  | keyMissing (path : String)
  | caMissing (path : String)
  | upstreamNotFound (name : String)
  | duplicateServerName (name : String)
deriving DecidableEq, Repr

/-- The text of an error; `debug` is the `{:?}` form of a path. -/
def ConfError.message (debug : String → String) : ConfError → String
  | .certMissing path => "Certificate file does not exist: " ++ debug path
  | .keyMissing path => "Key file does not exist: " ++ debug path
  | .caMissing path => "CA file does not exist: " ++ debug path
  | .upstreamNotFound name => "Upstream '" ++ name ++ "' not found"
  | .duplicateServerName name => "Duplicate server name: " ++ name

abbrev FileSystem := String → Bool

def RateLimitConfigResolved.fromConfig (rl : RateLimitConfig) : RateLimitConfigResolved :=
  ⟨rl.maxRequests, .fromSecs rl.windowSecs⟩

def TlsConfigResolved.tryFrom (exist : FileSystem) (tls : TlsConfig) :
    Except ConfError TlsConfigResolved :=
  if !exist tls.cert then .error (.certMissing tls.cert)
  else if !exist tls.key then .error (.keyMissing tls.key)
  else match tls.ca with
    | some caPath =>
      if !exist caPath then .error (.caMissing caPath) else .ok ⟨tls.cert, tls.key, some caPath⟩
    | none => .ok ⟨tls.cert, tls.key, none⟩

def UpstreamConfigResolved.fromConfig (upstream : UpstreamConfig) : UpstreamConfigResolved :=
  ⟨upstream.servers⟩

def GlobalConfigResolved.tryFrom (exist : FileSystem) (global : GlobalConfig) :
    Except ConfError GlobalConfigResolved := do
  let tls ← global.tls.mapM (TlsConfigResolved.tryFrom exist)
  return ⟨global.port, tls, global.rateLimit.map .fromConfig⟩

def ServerConfigResolved.tryFromWithMaps (server : ServerConfig)
    (upstreamMap : KeyMap String UpstreamConfigResolved) :
    Except ConfError ServerConfigResolved :=
  match upstreamMap.get server.upstream with
  | some upstream => .ok ⟨server.tls.getD false, upstream⟩
  | none => .error (.upstreamNotFound server.upstream)

namespace ProxyConfigResolved

def upstreamMap (upstreams : List UpstreamConfig) : KeyMap String UpstreamConfigResolved :=
  upstreams.foldl (fun m upstream => m.insert upstream.name (.fromConfig upstream)) ∅

/-- The body of the loop over the server blocks. -/
def addServer (upstreamMap : KeyMap String UpstreamConfigResolved)
    (servers : KeyMap String ServerConfigResolved) (server : ServerConfig) :
    Except ConfError (KeyMap String ServerConfigResolved) := do
  let resolvedServer ← ServerConfigResolved.tryFromWithMaps server upstreamMap
  server.serverName.foldlM (KeyMap.insertNew .duplicateServerName resolvedServer) servers

def tryFrom (exist : FileSystem) (raw : SimpleProxyConfig) :
    Except ConfError ProxyConfigResolved := do
  let upstreamMap := upstreamMap raw.upstreams
  let global ← GlobalConfigResolved.tryFrom exist raw.global
  let servers ← raw.servers.foldlM (addServer upstreamMap) ∅
  return ⟨global, servers⟩

end ProxyConfigResolved

/-! ## What is accepted, and what it becomes -/

def TlsConfig.FilesExist (exist : FileSystem) (tls : TlsConfig) : Prop :=
  exist tls.cert ∧ exist tls.key ∧ ∀ ca, tls.ca = some ca → exist ca

structure SimpleProxyConfig.WellFormed (exist : FileSystem) (raw : SimpleProxyConfig) : Prop where
  files : ∀ tls, raw.global.tls = some tls → tls.FilesExist exist
  upstreams : ∀ server ∈ raw.servers, ∃ group ∈ raw.upstreams, group.name = server.upstream
  distinct : (raw.servers.flatMap ServerConfig.serverName).Nodup

/-- `group` is the last upstream group called `name`. -/
def LastNamed (upstreams : List UpstreamConfig) (name : String) (group : UpstreamConfig) : Prop :=
  ∃ before after, upstreams = before ++ group :: after ∧ group.name = name ∧
    ∀ later ∈ after, later.name ≠ name

/-- The resolved configuration says what the raw one says. -/
structure Resolves (raw : SimpleProxyConfig) (config : ProxyConfigResolved) : Prop where
  port : config.global.port = raw.global.port
  tls : config.global.tls = raw.global.tls.map fun tls => ⟨tls.cert, tls.key, tls.ca⟩
  rateLimit : config.global.rateLimit =
    raw.global.rateLimit.map fun rl => ⟨rl.maxRequests, .fromSecs rl.windowSecs⟩
  names : ∀ name, name ∈ config.servers ↔ ∃ server ∈ raw.servers, name ∈ server.serverName
  blocks : ∀ server ∈ raw.servers, ∀ name ∈ server.serverName, ∃ group,
    LastNamed raw.upstreams server.upstream group ∧
      config.servers.get name = some ⟨server.tls.getD false, ⟨group.servers⟩⟩

/-! ## The global section -/

theorem TlsConfigResolved.tryFrom_eq_ok {exist : FileSystem} {tls : TlsConfig}
    {resolved : TlsConfigResolved} : tryFrom exist tls = .ok resolved ↔
      tls.FilesExist exist ∧ ⟨tls.cert, tls.key, tls.ca⟩ = resolved := by
  obtain ⟨ca, cert, key⟩ := tls
  unfold tryFrom TlsConfig.FilesExist
  by_cases hcert : exist cert
  · by_cases hkey : exist key
    · cases ca with
      | none => simp [hcert, hkey]
      | some caPath => by_cases hca : exist caPath <;> simp [hcert, hkey, hca]
    · simp [hcert, hkey]
  · simp [hcert]

theorem TlsConfigResolved.mapM_tryFrom_eq_ok {exist : FileSystem} {tls : Option TlsConfig}
    {resolved : Option TlsConfigResolved} : tls.mapM (tryFrom exist) = .ok resolved ↔
      (∀ t, tls = some t → t.FilesExist exist) ∧
        (tls.map fun t => ⟨t.cert, t.key, t.ca⟩) = resolved := by
  cases tls with
  | none => simp
  | some t => simp [Option.mapM_some, map_eq_ok, tryFrom_eq_ok]

theorem GlobalConfigResolved.tryFrom_eq_ok {exist : FileSystem} {global : GlobalConfig}
    {resolved : GlobalConfigResolved} : tryFrom exist global = .ok resolved ↔
      (∀ tls, global.tls = some tls → tls.FilesExist exist) ∧
        ⟨global.port, global.tls.map fun tls => ⟨tls.cert, tls.key, tls.ca⟩,
          global.rateLimit.map .fromConfig⟩ = resolved := by
  simp [tryFrom, map_eq_ok, TlsConfigResolved.mapM_tryFrom_eq_ok, and_assoc]

/-! ## The server blocks -/

theorem mem_of_lastNamed {upstreams : List UpstreamConfig} {name : String}
    {group : UpstreamConfig} (h : LastNamed upstreams name group) :
    group ∈ upstreams ∧ group.name = name := by
  obtain ⟨before, after, rfl, named, -⟩ := h
  exact ⟨by simp, named⟩

theorem lastNamed_of_find? {upstreams : List UpstreamConfig} {name : String}
    {group : UpstreamConfig} :
    (upstreams.reverse.find? fun upstream => upstream.name = name) = some group ↔
      LastNamed upstreams name group := by
  rw [List.find?_eq_some_iff_append]
  simp only [decide_eq_true_eq, Bool.not_eq_true', decide_eq_false_iff_not, LastNamed]
  constructor
  · rintro ⟨named, after, before, split, others⟩
    refine ⟨before.reverse, after.reverse, ?_, named, by simpa using others⟩
    simpa using congrArg List.reverse split
  · rintro ⟨before, after, rfl, named, others⟩
    exact ⟨named, after.reverse, before.reverse, by simp, by simpa using others⟩

theorem LastNamed.unique {upstreams : List UpstreamConfig} {name : String}
    {group group' : UpstreamConfig} (h : LastNamed upstreams name group)
    (h' : LastNamed upstreams name group') : group = group' := by
  rw [← lastNamed_of_find?] at h h'
  exact Option.some.inj (h.symm.trans h')

namespace ProxyConfigResolved

theorem upstreamMap_get {upstreams : List UpstreamConfig} {name : String}
    {upstream : UpstreamConfigResolved} : (upstreamMap upstreams).get name = some upstream ↔
      ∃ group, LastNamed upstreams name group ∧ ⟨group.servers⟩ = upstream := by
  unfold upstreamMap
  rw [KeyMap.get_foldl_insert]
  simp only [KeyMap.get_empty, Option.or_none, Option.map_eq_some_iff, lastNamed_of_find?]
  rfl

theorem mem_upstreamMap {upstreams : List UpstreamConfig} {name : String} :
    (∃ upstream, (upstreamMap upstreams).get name = some upstream) ↔
      ∃ group ∈ upstreams, group.name = name := by
  unfold upstreamMap
  rw [KeyMap.get_foldl_insert, ← Option.isSome_iff_exists]
  simp [List.find?_isSome]

/-- The resolution of a block: the last group it names, under its TLS flag. -/
theorem tryFromWithMaps_eq_ok {upstreams : List UpstreamConfig} {server : ServerConfig}
    {resolved : ServerConfigResolved} :
    ServerConfigResolved.tryFromWithMaps server (upstreamMap upstreams) = .ok resolved ↔
      ∃ group, LastNamed upstreams server.upstream group ∧
        ⟨server.tls.getD false, ⟨group.servers⟩⟩ = resolved := by
  unfold ServerConfigResolved.tryFromWithMaps
  cases found : (upstreamMap upstreams).get server.upstream with
  | none =>
    simp only [reduceCtorEq, false_iff, not_exists, not_and]
    intro group last
    have := upstreamMap_get.mpr ⟨group, last, rfl⟩
    simp [found] at this
  | some upstream =>
    obtain ⟨group, last, rfl⟩ := upstreamMap_get.mp found
    simp only [Except.ok.injEq]
    constructor
    · rintro rfl
      exact ⟨group, last, rfl⟩
    · rintro ⟨group', last', rfl⟩
      have := upstreamMap_get.mpr ⟨group', last', rfl⟩
      rw [found, Option.some.injEq] at this
      rw [this]

/-- A block can be resolved when some group has the name it names. -/
theorem tryFromWithMaps_isOk_iff {upstreams : List UpstreamConfig} {server : ServerConfig} :
    (∃ resolved, ServerConfigResolved.tryFromWithMaps server (upstreamMap upstreams) =
      .ok resolved) ↔ ∃ group ∈ upstreams, group.name = server.upstream := by
  rw [← mem_upstreamMap]
  unfold ServerConfigResolved.tryFromWithMaps
  cases (upstreamMap upstreams).get server.upstream <;> simp

/-- What the loop has built from the blocks it has seen. -/
structure Built (groups : KeyMap String UpstreamConfigResolved) (blocks : List ServerConfig)
    (servers : KeyMap String ServerConfigResolved) : Prop where
  resolved : ∀ server ∈ blocks, ∃ resolved,
    ServerConfigResolved.tryFromWithMaps server groups = .ok resolved
  distinct : (blocks.flatMap ServerConfig.serverName).Nodup
  get : ∀ name resolved, servers.get name = some resolved ↔ ∃ server ∈ blocks,
    name ∈ server.serverName ∧ ServerConfigResolved.tryFromWithMaps server groups = .ok resolved

variable {groups : KeyMap String UpstreamConfigResolved} {blocks : List ServerConfig}
  {server : ServerConfig} {servers servers' : KeyMap String ServerConfigResolved}

theorem built_nil : Built groups [] ∅ := ⟨by simp, by simp, by simp⟩

theorem Built.mem (h : Built groups blocks servers) (name : String) :
    name ∈ servers ↔ ∃ server ∈ blocks, name ∈ server.serverName := by
  rw [KeyMap.mem_iff_get]
  constructor
  · rintro ⟨resolved, found⟩
    obtain ⟨server, mem, listed, -⟩ := (h.get name resolved).mp found
    exact ⟨server, mem, listed⟩
  · rintro ⟨server, mem, listed⟩
    obtain ⟨resolved, ok⟩ := h.resolved server mem
    exact ⟨resolved, (h.get name resolved).mpr ⟨server, mem, listed, ok⟩⟩

theorem addServer_eq_ok : addServer groups servers server = .ok servers' ↔
    ∃ resolved, ServerConfigResolved.tryFromWithMaps server groups = .ok resolved ∧
      server.serverName.Nodup ∧ (∀ name ∈ server.serverName, name ∉ servers) ∧
        server.serverName.foldl (fun m name => m.insert name resolved) servers = servers' := by
  simp only [addServer, bind_eq_ok, KeyMap.foldlM_insertNew_eq_ok]

/-- The loop body keeps the invariant. -/
theorem Built.snoc (h : Built groups blocks servers)
    (step : addServer groups servers server = .ok servers') :
    Built groups (blocks ++ [server]) servers' := by
  obtain ⟨resolved, ok, distinct, fresh, rfl⟩ := addServer_eq_ok.mp step
  refine ⟨?_, ?_, fun name r => ?_⟩
  · intro s mem
    rcases List.mem_append.mp mem with mem | mem
    · exact h.resolved s mem
    · rw [List.mem_singleton.mp mem]
      exact ⟨resolved, ok⟩
  · rw [List.flatMap_append, List.flatMap_singleton, List.nodup_append]
    refine ⟨h.distinct, distinct, fun name old name' new equal => fresh name' new ?_⟩
    rw [h.mem, ← List.mem_flatMap, ← equal]
    exact old
  · rw [KeyMap.get_foldl_insert_const]
    by_cases listed : name ∈ server.serverName
    · have unlisted : servers.get name = none := KeyMap.get_eq_none.mpr (fresh name listed)
      have none_before : ∀ s ∈ blocks, name ∉ s.serverName := fun s mem listed' =>
        fresh name listed ((h.mem name).mpr ⟨s, mem, listed'⟩)
      rw [if_pos listed]
      constructor
      · rintro ⟨⟩
        exact ⟨server, by simp, listed, ok⟩
      · rintro ⟨s, mem, listed', ok'⟩
        rcases List.mem_append.mp mem with mem | mem
        · exact absurd listed' (none_before s mem)
        · rw [List.mem_singleton.mp mem, ok] at ok'
          rw [Except.ok.inj ok']
    · rw [if_neg listed, h.get]
      constructor
      · rintro ⟨s, mem, rest⟩
        exact ⟨s, List.mem_append_left _ mem, rest⟩
      · rintro ⟨s, mem, listed', ok'⟩
        rcases List.mem_append.mp mem with mem | mem
        · exact ⟨s, mem, listed', ok'⟩
        · rw [List.mem_singleton.mp mem] at listed'
          exact absurd listed' listed

/-- The loop over all blocks keeps the invariant. -/
theorem built_of_loop (loop : blocks.foldlM (addServer groups) ∅ = .ok servers) :
    Built groups blocks servers := by
  induction blocks using List.reverseRecOn generalizing servers with
  | nil =>
    obtain rfl := pure_eq_ok.mp loop
    exact built_nil
  | append_singleton blocks server ih =>
    rw [List.foldlM_append, bind_eq_ok] at loop
    obtain ⟨mid, before, last⟩ := loop
    exact (ih before).snoc (by simpa using last)

/-- The loop ends well when every block can be resolved and all names differ. -/
theorem loop_of_distinct (resolved : ∀ server ∈ blocks, ∃ resolved,
      ServerConfigResolved.tryFromWithMaps server groups = .ok resolved)
    (distinct : (blocks.flatMap ServerConfig.serverName).Nodup) :
    ∃ servers, blocks.foldlM (addServer groups) ∅ = .ok servers := by
  induction blocks using List.reverseRecOn with
  | nil => exact ⟨∅, rfl⟩
  | append_singleton blocks server ih =>
    rw [List.flatMap_append, List.flatMap_singleton, List.nodup_append] at distinct
    obtain ⟨distinct, distinctHere, apart⟩ := distinct
    obtain ⟨mid, before⟩ := ih (fun s mem => resolved s (List.mem_append_left _ mem)) distinct
    obtain ⟨r, ok⟩ := resolved server (by simp)
    have fresh : ∀ name ∈ server.serverName, name ∉ mid := by
      intro name listed held
      rw [(built_of_loop before).mem, ← List.mem_flatMap] at held
      exact apart name held name listed rfl
    obtain ⟨next, last⟩ : ∃ next, addServer groups mid server = .ok next :=
      ⟨_, addServer_eq_ok.mpr ⟨r, ok, distinctHere, fresh, rfl⟩⟩
    refine ⟨next, ?_⟩
    rw [List.foldlM_append, bind_eq_ok]
    exact ⟨mid, before, by simpa using last⟩

/-! ## The whole configuration -/

variable {exist : FileSystem} {raw : SimpleProxyConfig} {config : ProxyConfigResolved}

theorem tryFrom_eq_ok : tryFrom exist raw = .ok config ↔
    GlobalConfigResolved.tryFrom exist raw.global = .ok config.global ∧
      raw.servers.foldlM (addServer (upstreamMap raw.upstreams)) ∅ = .ok config.servers := by
  unfold tryFrom
  rw [bind_eq_ok]
  constructor
  · rintro ⟨global, ok, rest⟩
    obtain ⟨servers, loop, equal⟩ := bind_eq_ok.mp rest
    cases equal
    exact ⟨ok, loop⟩
  · rintro ⟨ok, loop⟩
    exact ⟨config.global, ok, bind_eq_ok.mpr ⟨config.servers, loop, rfl⟩⟩

/-- A name is resolved exactly when a block lists it, to what that block says. -/
theorem tryFrom_servers_get (h : tryFrom exist raw = .ok config) {name : String}
    {resolved : ServerConfigResolved} : config.servers.get name = some resolved ↔
      ∃ server ∈ raw.servers, name ∈ server.serverName ∧ ∃ group,
        LastNamed raw.upstreams server.upstream group ∧
          ⟨server.tls.getD false, ⟨group.servers⟩⟩ = resolved := by
  rw [(built_of_loop (tryFrom_eq_ok.mp h).2).get]
  simp only [tryFromWithMaps_eq_ok]

theorem tryFrom_wellFormed (h : tryFrom exist raw = .ok config) : raw.WellFormed exist := by
  obtain ⟨global, loop⟩ := tryFrom_eq_ok.mp h
  have built := built_of_loop loop
  refine ⟨(GlobalConfigResolved.tryFrom_eq_ok.mp global).1, fun server mem => ?_, built.distinct⟩
  exact tryFromWithMaps_isOk_iff.mp (built.resolved server mem)

theorem tryFrom_of_wellFormed (h : raw.WellFormed exist) :
    ∃ config, tryFrom exist raw = .ok config := by
  have global := GlobalConfigResolved.tryFrom_eq_ok.mpr ⟨h.files, rfl⟩
  obtain ⟨servers, loop⟩ := loop_of_distinct
    (fun server mem => tryFromWithMaps_isOk_iff.mpr (h.upstreams server mem)) h.distinct
  exact ⟨⟨_, servers⟩, tryFrom_eq_ok.mpr ⟨global, loop⟩⟩

theorem tryFrom_resolves (h : tryFrom exist raw = .ok config) : Resolves raw config := by
  obtain ⟨global, loop⟩ := tryFrom_eq_ok.mp h
  have built := built_of_loop loop
  have globalSays := (GlobalConfigResolved.tryFrom_eq_ok.mp global).2
  refine ⟨?_, ?_, ?_, built.mem, fun server mem name listed => ?_⟩
  · rw [← globalSays]
  · rw [← globalSays]
  · rw [← globalSays]
    rfl
  · obtain ⟨resolved, ok⟩ := built.resolved server mem
    obtain ⟨group, last, rfl⟩ := tryFromWithMaps_eq_ok.mp ok
    exact ⟨group, last, (built.get name _).mpr ⟨server, mem, listed, ok⟩⟩

/-- Resolution accepts exactly the well-formed configurations, and gives exactly
what they say. -/
theorem tryFrom_exact (exist : FileSystem) (raw : SimpleProxyConfig) :
    ((∃ config, tryFrom exist raw = .ok config) ↔ raw.WellFormed exist) ∧
      ∀ config, tryFrom exist raw = .ok config → Resolves raw config :=
  ⟨⟨fun ⟨_, ok⟩ => tryFrom_wellFormed ok, tryFrom_of_wellFormed⟩, fun _ ok => tryFrom_resolves ok⟩

/-- Two blocks, one with a repeated group name and one that lists no name. -/
def twoBlocks : SimpleProxyConfig where
  global := ⟨8080, some ⟨none, "cert.pem", "key.pem"⟩, some ⟨100, 60⟩⟩
  servers := [⟨["acme.com", "www.acme.com"], "web", some true⟩, ⟨[], "api", none⟩]
  upstreams := [⟨"web", ["127.0.0.1:1"]⟩, ⟨"api", []⟩,
    ⟨"web", ["127.0.0.1:3001", "127.0.0.1:3001"]⟩]

theorem tryFrom_exact_twoBlocks :
    ∃ config, tryFrom (fun path => path = "cert.pem" ∨ path = "key.pem") twoBlocks = .ok config ∧
      Resolves twoBlocks config := by
  have settled := tryFrom_exact (fun path => path = "cert.pem" ∨ path = "key.pem") twoBlocks
  have wellFormed : twoBlocks.WellFormed fun path => path = "cert.pem" ∨ path = "key.pem" := by
    refine ⟨fun tls equal => ?_, by decide, by decide⟩
    cases equal
    exact ⟨by decide, by decide, by simp⟩
  obtain ⟨config, ok⟩ := settled.1.mpr wellFormed
  exact ⟨config, ok, settled.2 config ok⟩

end ProxyConfigResolved

end SimplyProxy
