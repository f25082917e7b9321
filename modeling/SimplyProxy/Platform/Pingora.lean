import Mathlib.Data.List.Dedup
import SimplyProxy.Base.Rotation
import SimplyProxy.Platform.Http
import SimplyProxy.Platform.Time

/-!
# What the code uses of Pingora

The data that Pingora hands to the callbacks and takes from them, and the two
functions of its load balancer that the code calls. These are not part of the
repository: `Pingora` has them as parameters, `Pingora.Documented` is what their
documentation promises, and `Pingora.Holds` what is assumed of a list of addresses.
The functions of an error are parameters too, with `Errors.Documented`.
-/

namespace SimplyProxy

/-! ## Errors -/

inductive ErrorType
  | httpStatus (code : UInt16)
  | writeError
  | readError
  | connectionClosed
  | other (name : String)
deriving DecidableEq, Repr

inductive ErrorSource
  | upstream
  | downstream
  | internal
  | unset
deriving DecidableEq, Repr

structure ProxyError where
  etype : ErrorType
  esource : ErrorSource
deriving DecidableEq, Repr

inductive RetryType
  | decided (retry : Bool)
  /-- To be retried if the connection was a reused one. -/
  | reusedOnly
deriving DecidableEq

/-- An error with the contexts of itself and of its causes. -/
structure Error where
  kind : ProxyError
  retry : RetryType
  context : List String

/-- The functions of an error. `create kind` is `Error::create` without a context and a cause. -/
structure Errors where
  create : ProxyError → Error
  moreContext : Error → String → Error
  decideReuse : RetryType → Bool → RetryType

/-- A new error is not to be retried, a further context changes nothing else, and what is
decided stays. -/
structure Errors.Documented (errors : Errors) : Prop where
  create : ∀ kind, (errors.create kind).kind = kind ∧ (errors.create kind).retry = .decided false
  moreContext : ∀ e context,
    errors.moreContext e context = { e with context := context :: e.context }
  reusedOnly : ∀ reused, errors.decideReuse .reusedOnly reused = .decided reused
  decided : ∀ retry reused, errors.decideReuse (.decided retry) reused = .decided retry

/-- Keeps a list of the contexts. -/
def Errors.plain : Errors where
  create kind := ⟨kind, .decided false, []⟩
  moreContext e context := ⟨e.kind, e.retry, context :: e.context⟩
  decideReuse retry reused := match retry with
    | .reusedOnly => .decided reused
    | .decided retry => .decided retry

theorem Errors.plain_documented : Errors.plain.Documented :=
  ⟨fun _ => ⟨rfl, rfl⟩, fun _ _ => rfl, fun _ => rfl, fun _ _ => rfl⟩

/-! ## Sessions -/

abbrev Bytes := List UInt8

/-- What is written to the client by the proxy itself. -/
inductive Written
  | header (header : ResponseHeader) (endOfStream : Bool)
  | body (body : Bytes) (endOfStream : Bool)

/-- One request of a client. `written` are the parts of a response written so
far; `writeError n` is the error that the write number `n` runs into, if any. -/
structure Session where
  clientAddr : Option SocketAddr
  reqHeader : RequestHeader
  writeError : Nat → Option ProxyError
  written : List Written

namespace Session

def getHeader (s : Session) (name : String) : Option HeaderValue := s.reqHeader.headers.get name

def write (s : Session) (part : Written) : Except ProxyError Unit × Session :=
  match s.writeError s.written.length with
  | some e => (.error e, s)
  | none => (.ok (), { s with written := s.written ++ [part] })

end Session

/-! ## Peers and load balancers -/

/-- The upstream connection to make. -/
structure HttpPeer where
  address : String
  tls : Bool
  sni : String
  maxHttpVersion : Nat
  minHttpVersion : Nat
deriving DecidableEq

def HttpPeer.new (address : String) (tls : Bool) (sni : String) : HttpPeer :=
  ⟨address, tls, sni, 1, 1⟩

def HttpPeer.setHttpVersion (p : HttpPeer) (max min : Nat) : HttpPeer :=
  { p with maxHttpVersion := max, minHttpVersion := min }

structure Backend where
  addr : String
deriving DecidableEq

inductive HealthCheck
  | tcp
deriving DecidableEq

/-- A load balancer with round-robin selection. -/
structure LoadBalancer where
  backends : List Backend
  healthCheck : Option HealthCheck
  healthCheckFrequency : Option Duration

/-- The functions of the load balancer. `selectWith lb health next key max accept`
selects with the given health of the backends and reading of the round-robin
counter. -/
structure Pingora where
  tryFromIter : List String → Except String LoadBalancer
  selectWith : LoadBalancer → (Backend → Bool) → Nat → Bytes → Nat → (Backend → Bool → Bool) →
    Option Backend

/-- A load balancer that is made from the addresses holds exactly these. That is so when each is
an IP address and a port as Rust prints them: a host name is resolved, and any other spelling
becomes the printed one. -/
def Pingora.Holds (pingora : Pingora) (addrs : List String) : Prop :=
  ∀ lb, pingora.tryFromIter addrs = .ok lb →
    ∀ backend, backend ∈ lb.backends ↔ backend.addr ∈ addrs

/-- Only a held backend that `accept` approves is selected. -/
structure Pingora.Documented (pingora : Pingora) : Prop where
  selects : ∀ lb health next key max accept backend,
    pingora.selectWith lb health next key max accept = some backend →
      backend ∈ lb.backends ∧ accept backend (health backend) = true

/-- Selection is a round-robin walk that starts at the counter: every step counts
against `max`, and a backend that was tried before is skipped. -/
def Pingora.WalksInTurn (pingora : Pingora) : Prop :=
  ∀ lb health next key max accept, pingora.selectWith lb health next key max accept =
    RoundRobin.walk lb.backends (fun backend => accept backend (health backend)) max next []

/-- Takes every address as it is, and tries the backends in turn. -/
def Pingora.roundRobin : Pingora where
  tryFromIter addrs := .ok ⟨addrs.dedup.map Backend.mk, none, none⟩
  selectWith lb health next _ max accept :=
    ((List.range max).filterMap fun i => lb.backends[(next + i) % lb.backends.length]?).find?
      fun backend => accept backend (health backend)

theorem Pingora.roundRobin_holds (addrs : List String) : Pingora.roundRobin.Holds addrs := by
  intro lb h backend
  obtain rfl := Except.ok.inj h
  simp only [List.mem_map, List.mem_dedup]
  exact ⟨fun ⟨_, mem, equal⟩ => equal ▸ mem, fun mem => ⟨_, mem, rfl⟩⟩

theorem Pingora.roundRobin_documented : Pingora.roundRobin.Documented where
  selects lb health next key max accept backend h := by
    simp only [roundRobin] at h
    obtain ⟨i, -, found⟩ := List.mem_filterMap.mp (List.mem_of_find?_eq_some h)
    have accepted := List.find?_some h
    exact ⟨List.mem_of_getElem? found, accepted⟩

theorem Pingora.roundRobin_walksInTurn : Pingora.roundRobin.WalksInTurn :=
  fun lb _ next _ max _ => (RoundRobin.walk_eq_find? lb.backends _ max next).symm

/-! ## Selections, one after another -/

/-- With the reading of the round-robin counter behind a selection. -/
structure Rotation extends Pingora where
  counterAfter : LoadBalancer → (Backend → Bool) → Nat → Bytes → Nat →
    (Backend → Bool → Bool) → Nat

/-- The counter counts every backend that is tried, so a selection leaves it behind the
selected backend. Only the backends of the load balancer matter. -/
structure Rotation.InTurn (rotation : Rotation) : Prop where
  walks : rotation.WalksInTurn
  leaves : ∀ lb health next key max accept backend next',
    RoundRobin.walkOn lb.backends (fun backend => accept backend (health backend)) max next =
      some (backend, next') → rotation.counterAfter lb health next key max accept = next'
  backendsOnly : ∀ lb lb' health next key max accept, lb.backends = lb'.backends →
    rotation.counterAfter lb health next key max accept =
      rotation.counterAfter lb' health next key max accept

/-- The selection of `Pingora.roundRobin`. One that finds nothing has asked for one backend more
than the `max` that it may try, or for one if there is none. -/
def Rotation.roundRobin : Rotation where
  toPingora := .roundRobin
  counterAfter lb health next _ max accept :=
    match RoundRobin.walkOn lb.backends (fun backend => accept backend (health backend)) max next
      with
    | some (_, next') => next'
    | none => if lb.backends.isEmpty then next + 1 else next + max + 1

theorem Rotation.roundRobin_inTurn : Rotation.roundRobin.InTurn where
  walks := Pingora.roundRobin_walksInTurn
  leaves lb health next key max accept backend next' walked := by
    simp only [roundRobin, walked]
  backendsOnly lb lb' health next key max accept same := by
    simp only [roundRobin, same]

end SimplyProxy
