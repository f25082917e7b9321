import Mathlib.Logic.Function.Basic
import SimplyProxy.Base.DataFormat
import SimplyProxy.Base.JsonRoundTrip
import SimplyProxy.Conf.Resolved

/-!
# The configuration as a YAML file

`from_yaml_file` and `to_yaml_file` of `conf/raw.rs` and `load` of `conf/resolved.rs`. The
fields are read and written by the derived implementations; how YAML spells a value is up
to `serde_yaml`, which is a parameter. Why it refuses a document is left out.

1. `fromYamlFile_toYamlFile`: every configuration can be saved and is read back as it was.
2. `load_toYamlFile`: a file that loads can be read and saved anywhere, also over itself, and
   the copy loads to the same configuration.
-/

namespace SimplyProxy
open DataFormat

variable {N : Type}

/-! ## Fields -/

section Fields
variable (F : Format N)

def u16 : Codec F UInt16 :=
  (Codec.nat F (2 ^ 16) (by decide)).along UInt16.toNat UInt16.ofNat (fun _ => UInt16.ofNat_toNat)
    fun n fits => UInt16.toNat_ofNat_of_lt (show n < 2 ^ 16 from fits)

def u64 : Codec F UInt64 :=
  (Codec.nat F (2 ^ 64) (by decide)).along UInt64.toNat UInt64.ofNat (fun _ => UInt64.ofNat_toNat)
    fun n fits => UInt64.toNat_ofNat_of_lt (show n < 2 ^ 64 from fits)

def usize : Codec F Nat := .nat F (2 ^ 64) (by decide)

theorem fits_u16 (port : UInt16) : (u16 F).Fits port := port.toNat_lt

theorem fits_u64 (secs : UInt64) : (u64 F).Fits secs := secs.toNat_lt

def RateLimitConfig.codec : Codec F RateLimitConfig where
  write rl := F.ofEntries (present
    [("max_requests", some ((usize F).write rl.maxRequests)),
      ("window_secs", some ((u64 F).write rl.windowSecs))])
  read node := do
    let es ← F.entries ["max_requests", "window_secs"] node
    let maxRequests ← (usize F).field es "max_requests"
    let windowSecs ← (u64 F).field es "window_secs"
    return ⟨maxRequests, windowSecs⟩
  Fits rl := rl.maxRequests < 2 ^ 64
  read_write rl fits := by
    rw [F.entries_ofEntries, Option.bind_eq_bind, Option.bind_some,
      (usize F).field_present (by simp) rl.maxRequests fits (by simp),
      (u64 F).field_present (by simp) rl.windowSecs (fits_u64 F _) (by simp)]
    rfl
  fits_read node rl h := by
    simp only [Option.bind_eq_bind, Option.bind_eq_some_iff] at h
    obtain ⟨es, -, maxRequests, found, windowSecs, -, equal⟩ := h
    obtain rfl := Option.some.inj equal
    exact Codec.fits_field found
  visible _ := F.isNull_ofEntries _

def TlsConfig.codec : Codec F TlsConfig where
  write tls := F.ofEntries (present
    [("ca", tls.ca.map (Codec.text F).write), ("cert", some ((Codec.text F).write tls.cert)),
      ("key", some ((Codec.text F).write tls.key))])
  read node := do
    let es ← F.entries ["ca", "cert", "key"] node
    let ca ← (Codec.text F).optional es "ca"
    let cert ← (Codec.text F).field es "cert"
    let key ← (Codec.text F).field es "key"
    return ⟨ca, cert, key⟩
  Fits _ := True
  read_write tls _ := by
    rw [F.entries_ofEntries, Option.bind_eq_bind, Option.bind_some,
      (Codec.text F).optional_present (by simp) tls.ca (fun _ _ => True.intro) (by simp),
      (Codec.text F).field_present (by simp) tls.cert True.intro (by simp),
      (Codec.text F).field_present (by simp) tls.key True.intro (by simp)]
    rfl
  fits_read _ _ _ := True.intro
  visible _ := F.isNull_ofEntries _

def GlobalConfig.codec : Codec F GlobalConfig where
  write global := F.ofEntries (present
    [("port", some ((u16 F).write global.port)),
      ("tls", global.tls.map (TlsConfig.codec F).write),
      ("rate_limit", global.rateLimit.map (RateLimitConfig.codec F).write)])
  read node := do
    let es ← F.entries ["port", "tls", "rate_limit"] node
    let port ← (u16 F).field es "port"
    let tls ← (TlsConfig.codec F).optional es "tls"
    let rateLimit ← (RateLimitConfig.codec F).optional es "rate_limit"
    return ⟨port, tls, rateLimit⟩
  Fits global := ∀ rl, global.rateLimit = some rl → rl.maxRequests < 2 ^ 64
  read_write global fits := by
    rw [F.entries_ofEntries, Option.bind_eq_bind, Option.bind_some,
      (u16 F).field_present (by simp) global.port (fits_u16 F _) (by simp),
      (TlsConfig.codec F).optional_present (by simp) global.tls (fun _ _ => True.intro) (by simp),
      (RateLimitConfig.codec F).optional_present (by simp) global.rateLimit fits (by simp)]
    rfl
  fits_read node global h := by
    simp only [Option.bind_eq_bind, Option.bind_eq_some_iff] at h
    obtain ⟨es, -, port, -, tls, -, rateLimit, found, equal⟩ := h
    obtain rfl := Option.some.inj equal
    exact Codec.fits_optional found
  visible _ := F.isNull_ofEntries _

def ServerConfig.codec : Codec F ServerConfig where
  write server := F.ofEntries (present
    [("server_name", some ((Codec.text F).list.write server.serverName)),
      ("upstream", some ((Codec.text F).write server.upstream)),
      ("tls", server.tls.map (Codec.bool F).write)])
  read node := do
    let es ← F.entries ["server_name", "upstream", "tls"] node
    let serverName ← (Codec.text F).list.field es "server_name"
    let upstream ← (Codec.text F).field es "upstream"
    let tls ← (Codec.bool F).optional es "tls"
    return ⟨serverName, upstream, tls⟩
  Fits _ := True
  read_write server _ := by
    rw [F.entries_ofEntries, Option.bind_eq_bind, Option.bind_some,
      (Codec.text F).list.field_present (by simp) server.serverName (fun _ _ => True.intro)
        (by simp),
      (Codec.text F).field_present (by simp) server.upstream True.intro (by simp),
      (Codec.bool F).optional_present (by simp) server.tls (fun _ _ => True.intro) (by simp)]
    rfl
  fits_read _ _ _ := True.intro
  visible _ := F.isNull_ofEntries _

def UpstreamConfig.codec : Codec F UpstreamConfig where
  write upstream := F.ofEntries (present
    [("name", some ((Codec.text F).write upstream.name)),
      ("servers", some ((Codec.text F).list.write upstream.servers))])
  read node := do
    let es ← F.entries ["name", "servers"] node
    let name ← (Codec.text F).field es "name"
    let servers ← (Codec.text F).list.field es "servers"
    return ⟨name, servers⟩
  Fits _ := True
  read_write upstream _ := by
    rw [F.entries_ofEntries, Option.bind_eq_bind, Option.bind_some,
      (Codec.text F).field_present (by simp) upstream.name True.intro (by simp),
      (Codec.text F).list.field_present (by simp) upstream.servers (fun _ _ => True.intro)
        (by simp)]
    rfl
  fits_read _ _ _ := True.intro
  visible _ := F.isNull_ofEntries _

def SimpleProxyConfig.codec : Codec F SimpleProxyConfig where
  write config := F.ofEntries (present
    [("global", some ((GlobalConfig.codec F).write config.global)),
      ("servers", some ((ServerConfig.codec F).list.write config.servers)),
      ("upstreams", some ((UpstreamConfig.codec F).list.write config.upstreams))])
  read node := do
    let es ← F.entries ["global", "servers", "upstreams"] node
    let global ← (GlobalConfig.codec F).field es "global"
    let servers ← (ServerConfig.codec F).list.field es "servers"
    let upstreams ← (UpstreamConfig.codec F).list.field es "upstreams"
    return ⟨global, servers, upstreams⟩
  Fits config := ∀ rl, config.global.rateLimit = some rl → rl.maxRequests < 2 ^ 64
  read_write config fits := by
    rw [F.entries_ofEntries, Option.bind_eq_bind, Option.bind_some,
      (GlobalConfig.codec F).field_present (by simp) config.global fits (by simp),
      (ServerConfig.codec F).list.field_present (by simp) config.servers (fun _ _ => True.intro)
        (by simp),
      (UpstreamConfig.codec F).list.field_present (by simp) config.upstreams (fun _ _ => True.intro)
        (by simp)]
    rfl
  fits_read node config h := by
    simp only [Option.bind_eq_bind, Option.bind_eq_some_iff] at h
    obtain ⟨es, -, global, found, servers, -, upstreams, -, equal⟩ := h
    obtain rfl := Option.some.inj equal
    exact Codec.fits_field found
  visible _ := F.isNull_ofEntries _

end Fields

/-! ## Files -/

/-- The codec of `serde_yaml`: how it spells values, and documents as text. -/
structure SerdeYaml (N : Type) extends Format N where
  fromText : String → Option N
  toText : N → String
  fromText_toText : ∀ node, fromText (toText node) = some node

/-- The paths that exist, those where a file can be created, and the texts of the files that
can be read. -/
structure Disk where
  exist : FileSystem
  creatable : FileSystem
  text : String → Option String
  exist_of_text : ∀ path, (text path).isSome → exist path

def Disk.write (disk : Disk) (path content : String) : Disk where
  exist := Function.update disk.exist path true
  creatable := disk.creatable
  text := Function.update disk.text path (some content)
  exist_of_text other held := by
    by_cases same : other = path
    · rw [same, Function.update_self]
    · rw [Function.update_of_ne same] at held ⊢
      exact disk.exist_of_text other held

inductive LoadError
  | unreadable (path : String)
  | uncreatable (path : String)
  | malformed
  | conf (error : ConfError)
deriving DecidableEq

variable (yaml : SerdeYaml N)

namespace SimpleProxyConfig

def fromYamlStr (text : String) : Except LoadError SimpleProxyConfig :=
  match (yaml.fromText text).bind (codec yaml.toFormat).read with
  | none => .error .malformed
  | some config => .ok config

def fromYamlFile (disk : Disk) (path : String) : Except LoadError SimpleProxyConfig :=
  match disk.text path with
  | none => .error (.unreadable path)
  | some text => fromYamlStr yaml text

def toYamlFile (self : SimpleProxyConfig) (disk : Disk) (path : String) : Except LoadError Disk :=
  if disk.creatable path then
    .ok (disk.write path (yaml.toText ((codec yaml.toFormat).write self)))
  else .error (.uncreatable path)

end SimpleProxyConfig

def ProxyConfigResolved.load (disk : Disk) (file : String) :
    Except LoadError ProxyConfigResolved := do
  let config ← SimpleProxyConfig.fromYamlFile yaml disk file
  (tryFrom disk.exist config).mapError .conf

namespace SimpleProxyConfig

variable {yaml} {disk disk' : Disk} {path file copy : String} {config : SimpleProxyConfig}

/-- The request limit is a 64-bit number. -/
def Fits (config : SimpleProxyConfig) : Prop :=
  ∀ rl, config.global.rateLimit = some rl → rl.maxRequests < 2 ^ 64

theorem fromYamlStr_eq_ok {text : String} : fromYamlStr yaml text = .ok config ↔
    ∃ node, yaml.fromText text = some node ∧ (codec yaml.toFormat).read node = some config := by
  rw [← Option.bind_eq_some_iff]
  unfold fromYamlStr
  cases (yaml.fromText text).bind (codec yaml.toFormat).read <;> simp

theorem fromYamlFile_eq_ok : fromYamlFile yaml disk path = .ok config ↔
    ∃ text, disk.text path = some text ∧ fromYamlStr yaml text = .ok config := by
  unfold fromYamlFile
  cases disk.text path <;> simp

theorem toYamlFile_eq_ok : config.toYamlFile yaml disk path = .ok disk' ↔
    disk.creatable path ∧
      disk.write path (yaml.toText ((codec yaml.toFormat).write config)) = disk' := by
  unfold toYamlFile
  split
  · next can => simp [can]
  · next cannot => simp [cannot]

/-- What a file says fits. -/
theorem fits_of_fromYamlFile (h : fromYamlFile yaml disk path = .ok config) : config.Fits := by
  obtain ⟨text, -, read⟩ := fromYamlFile_eq_ok.mp h
  obtain ⟨node, -, read⟩ := fromYamlStr_eq_ok.mp read
  exact (codec yaml.toFormat).fits_read node config read

theorem fromYamlFile_write (fits : config.Fits) :
    fromYamlFile yaml (disk.write path (yaml.toText ((codec yaml.toFormat).write config))) path =
      .ok config := by
  rw [fromYamlFile_eq_ok]
  refine ⟨_, Function.update_self .., fromYamlStr_eq_ok.mpr ⟨_, yaml.fromText_toText _, ?_⟩⟩
  exact (codec yaml.toFormat).read_write config fits

/-- YAML in its flow notation, which is that of JSON. -/
def flow : SerdeYaml JsonText.Doc where
  ofText := .str
  ofNat n := .num ⟨false, n, [], none⟩
  ofBool := .bool
  ofItems := .arr
  ofEntries := .obj
  text
    | .str s => some s
    | _ => none
  nat
    | .num ⟨false, n, [], none⟩ => some n
    | _ => none
  bool
    | .bool b => some b
    | _ => none
  items
    | .arr nodes => some nodes
    | _ => none
  entries _names
    | .obj es => some es
    | _ => none
  isNull
    | .null => true
    | _ => false
  text_ofText _ := rfl
  nat_ofNat _ _ := rfl
  bool_ofBool _ := rfl
  items_ofItems _ := rfl
  entries_ofEntries _ _ := rfl
  isNull_ofText _ := rfl
  isNull_ofNat _ := rfl
  isNull_ofBool _ := rfl
  isNull_ofItems _ := rfl
  isNull_ofEntries _ := rfl
  fromText text := JsonText.readText text.toList
  toText doc := String.ofList doc.text
  fromText_toText doc := by rw [String.toList_ofList, JsonText.readText_text]

/-- A disk with one file. -/
def diskWith (path content : String) : Disk where
  exist other := other = path
  creatable _ := true
  text other := if other = path then some content else none
  exist_of_text other held := by
    by_cases same : other = path
    · simp [same]
    · simp [same] at held

/-- Every configuration that is saved is read back as it was, and no other file changes. -/
theorem fromYamlFile_toYamlFile (fits : config.Fits)
    (saved : config.toYamlFile yaml disk path = .ok disk') :
    fromYamlFile yaml disk' path = .ok config ∧
      ∀ other ≠ path, fromYamlFile yaml disk' other = fromYamlFile yaml disk other := by
  obtain ⟨-, rfl⟩ := toYamlFile_eq_ok.mp saved
  refine ⟨fromYamlFile_write fits, fun other apart => ?_⟩
  unfold fromYamlFile
  rw [show (disk.write path _).text other = disk.text other from Function.update_of_ne apart ..]

theorem fromYamlFile_toYamlFile_twoBlocks : ∃ disk',
    ProxyConfigResolved.twoBlocks.toYamlFile flow (diskWith "other.yml" "") "proxy.yml" =
        .ok disk' ∧
      fromYamlFile flow disk' "proxy.yml" = .ok ProxyConfigResolved.twoBlocks := by
  have saved : ProxyConfigResolved.twoBlocks.toYamlFile flow (diskWith "other.yml" "") "proxy.yml" =
    .ok _ := rfl
  refine ⟨_, saved, (fromYamlFile_toYamlFile ?_ saved).1⟩
  simp [Fits, ProxyConfigResolved.twoBlocks]

end SimpleProxyConfig

namespace ProxyConfigResolved

variable {yaml} {disk disk' : Disk} {file copy : String} {raw : SimpleProxyConfig}
  {config : ProxyConfigResolved}

/-- More files do no harm. -/
theorem tryFrom_mono {exist exist' : FileSystem} (more : ∀ path, exist path → exist' path)
    (h : tryFrom exist raw = .ok config) : tryFrom exist' raw = .ok config := by
  rw [tryFrom_eq_ok] at h ⊢
  obtain ⟨global, servers⟩ := h
  rw [GlobalConfigResolved.tryFrom_eq_ok] at global ⊢
  obtain ⟨files, equal⟩ := global
  refine ⟨⟨fun tls held => ?_, equal⟩, servers⟩
  obtain ⟨cert, key, ca⟩ := files tls held
  exact ⟨more _ cert, more _ key, fun path held => more _ (ca path held)⟩

theorem load_eq_ok : load yaml disk file = .ok config ↔
    ∃ raw, SimpleProxyConfig.fromYamlFile yaml disk file = .ok raw ∧
      tryFrom disk.exist raw = .ok config := by
  unfold load
  rw [bind_eq_ok]
  refine exists_congr fun raw => and_congr_right fun _ => ?_
  cases tryFrom disk.exist raw <;> simp [Except.mapError]

/-- Of a file that loads, a copy can be made by reading and saving it, also in its own place.
The copy loads to the same configuration. -/
theorem load_toYamlFile (loaded : load yaml disk file = .ok config)
    (read : SimpleProxyConfig.fromYamlFile yaml disk file = .ok raw)
    (saved : raw.toYamlFile yaml disk copy = .ok disk') : load yaml disk' copy = .ok config := by
  obtain ⟨-, rfl⟩ := SimpleProxyConfig.toYamlFile_eq_ok.mp saved
  obtain ⟨raw', read', resolved⟩ := load_eq_ok.mp loaded
  obtain rfl : raw = raw' := Except.ok.inj (read.symm.trans read')
  have fits := SimpleProxyConfig.fits_of_fromYamlFile read
  refine load_eq_ok.mpr ⟨raw, SimpleProxyConfig.fromYamlFile_write fits, ?_⟩
  refine tryFrom_mono (fun path present => ?_) resolved
  show Function.update disk.exist copy true path = true
  rw [Function.update_apply]
  split
  · rfl
  · exact present

/-- A document with its keys in another order and one that is not known. -/
def looseDoc : JsonText.Doc :=
  .obj [("upstreams", .arr [.obj [("servers", .arr [.str "10.0.0.1:80"]), ("name", .str "web")]]),
    ("comment", .null),
    ("global", .obj [("tls", .null), ("port", .num ⟨false, 8081, [], none⟩)]),
    ("servers", .arr [.obj [("tls", .bool true), ("server_name", .arr [.str "a.com"]),
      ("upstream", .str "web")]])]

def looseConfig : SimpleProxyConfig :=
  ⟨⟨8081, none, none⟩, [⟨["a.com"], "web", some true⟩], [⟨"web", ["10.0.0.1:80"]⟩]⟩

theorem looseDoc_read : SimpleProxyConfig.fromYamlFile SimpleProxyConfig.flow
    (SimpleProxyConfig.diskWith "a.yml" (String.ofList looseDoc.text)) "a.yml" = .ok looseConfig :=
  SimpleProxyConfig.fromYamlFile_eq_ok.mpr ⟨_, rfl, SimpleProxyConfig.fromYamlStr_eq_ok.mpr
    ⟨looseDoc, SimpleProxyConfig.flow.fromText_toText _, rfl⟩⟩

theorem load_toYamlFile_loose : ∃ disk' config,
    looseConfig.toYamlFile SimpleProxyConfig.flow
        (SimpleProxyConfig.diskWith "a.yml" (String.ofList looseDoc.text)) "b.yml" = .ok disk' ∧
      load SimpleProxyConfig.flow disk' "b.yml" = .ok config :=
  ⟨_, _, rfl, load_toYamlFile (load_eq_ok.mpr ⟨_, looseDoc_read, rfl⟩) looseDoc_read rfl⟩

end ProxyConfigResolved

end SimplyProxy
