import SimplyProxy.Proxy.Contract

/-!
# Errors on their way to the client

The callbacks of `proxy/simple_proxy.rs` that Pingora runs on an error, and `fail_to_proxy`,
which answers it. How often the callbacks run, and in which order, is up to Pingora.

1. `reported_exact`: whatever they are, an error is answered as the one that it was, the first
   `error_while_proxy` decides whether it is retried, and the peers that it was run on are named.
2. `refused_exact`: in every run a request that gets no peer is answered by 404 if the file
   does not list its host and by 502 if it does. Its error is not to be retried.
-/

namespace SimplyProxy
open Runs

structure FailToProxy where
  errorCode : UInt16
  canReuseDownstream : Bool
deriving DecidableEq

namespace SimpleProxy

/-! ## Callbacks -/

/-- `display` prints a peer. -/
def errorWhileProxy (errors : Errors) (display : HttpPeer → String) (peer : HttpPeer)
    (retryBufferTruncated : Bool) (e : Error) (clientReused : Bool) : Error :=
  let e := errors.moreContext e ("Peer: " ++ display peer)
  { e with retry := errors.decideReuse e.retry (clientReused && !retryBufferTruncated) }

def failToConnect (_peer : HttpPeer) (e : Error) : Error := e

/-- The code that `fail_to_proxy` answers an error with; 0 for none. -/
def errorCode (e : Error) : UInt16 :=
  match e.kind.etype with
  | .httpStatus code => code
  | etype =>
    match e.kind.esource with
    | .upstream => 502
    | .downstream =>
      match etype with
      -- the connection is dead already
      | .writeError | .readError | .connectionClosed => 0
      | _ => 400
    | .internal | .unset => 500

/-- `respondError` writes an error response. That it fails is logged only. -/
def failToProxy (respondError : UInt16 → Session → Except ProxyError Unit × Session)
    (session : Session) (e : Error) : FailToProxy × Session :=
  let code := errorCode e
  let session := if code > 0 then (respondError code session).2 else session
  (⟨code, false⟩, session)

def shouldServeStale (error : Option Error) : Bool :=
  match error with
  | none => false
  | some e => e.kind.esource = .upstream

/-- A callback that Pingora runs on an error. -/
inductive ErrorCallback
  | errorWhileProxy (peer : HttpPeer) (retryBufferTruncated clientReused : Bool)
  | failToConnect (peer : HttpPeer)

namespace ErrorCallback

variable (errors : Errors) (display : HttpPeer → String)

def apply (e : Error) : ErrorCallback → Error
  | .errorWhileProxy peer retryBufferTruncated clientReused =>
    SimpleProxy.errorWhileProxy errors display peer retryBufferTruncated e clientReused
  | .failToConnect peer => SimpleProxy.failToConnect peer e

/-- Whether the callback finds that the request can be sent again. -/
def resendable : ErrorCallback → Option Bool
  | .errorWhileProxy _ retryBufferTruncated clientReused =>
    some (clientReused && !retryBufferTruncated)
  | .failToConnect _ => none

def context : ErrorCallback → Option String
  | .errorWhileProxy peer _ _ => some ("Peer: " ++ display peer)
  | .failToConnect _ => none

/-- Whether an error is retried after callbacks: what is open is settled by the first one that
finds out whether the request can be sent again. -/
def settled (callbacks : List ErrorCallback) : RetryType → RetryType
  | .decided retry => .decided retry
  | .reusedOnly => match (callbacks.filterMap resendable).head? with
    | none => .reusedOnly
    | some reused => .decided reused

variable {errors} (documented : errors.Documented)
include documented

theorem apply_cases (e : Error) (callback : ErrorCallback) :
    (callback.resendable = none ∧ callback.context display = none ∧
      callback.apply errors display e = e) ∨
    ∃ reused text, callback.resendable = some reused ∧ callback.context display = some text ∧
      callback.apply errors display e =
        ⟨e.kind, errors.decideReuse e.retry reused, text :: e.context⟩ := by
  cases callback with
  | errorWhileProxy peer truncated reused =>
    refine .inr ⟨_, _, rfl, rfl, ?_⟩
    simp only [apply, SimpleProxy.errorWhileProxy, documented.moreContext]
  | failToConnect peer => exact .inl ⟨rfl, rfl, rfl⟩

theorem kind_foldl (callbacks : List ErrorCallback) (e : Error) :
    (callbacks.foldl (apply errors display) e).kind = e.kind := by
  induction callbacks generalizing e with
  | nil => rfl
  | cons callback callbacks ih =>
    rw [List.foldl_cons, ih]
    rcases apply_cases display documented e callback with ⟨-, -, same⟩ | ⟨_, _, -, -, next⟩
    · rw [same]
    · rw [next]

/-- What is decided stays. -/
theorem retry_foldl_decided (callbacks : List ErrorCallback) {e : Error} {retry : Bool}
    (decided : e.retry = .decided retry) :
    (callbacks.foldl (apply errors display) e).retry = .decided retry := by
  induction callbacks generalizing e with
  | nil => exact decided
  | cons callback callbacks ih =>
    rw [List.foldl_cons]
    refine ih ?_
    rcases apply_cases display documented e callback with ⟨-, -, same⟩ | ⟨_, _, -, -, next⟩
    · rw [same, decided]
    · rw [next, decided]
      exact documented.decided retry _

theorem retry_foldl (callbacks : List ErrorCallback) (e : Error) :
    (callbacks.foldl (apply errors display) e).retry = settled callbacks e.retry := by
  cases decided : e.retry with
  | decided retry => exact retry_foldl_decided display documented callbacks decided
  | reusedOnly =>
    induction callbacks generalizing e with
    | nil => exact decided
    | cons callback callbacks ih =>
      rw [List.foldl_cons]
      rcases apply_cases display documented e callback with
        ⟨none, -, same⟩ | ⟨reused, _, some, -, next⟩
      · rw [same, ih e decided, settled, settled, List.filterMap_cons_none none]
      · rw [settled, List.filterMap_cons_some some]
        refine retry_foldl_decided display documented callbacks ?_
        rw [next, decided]
        exact documented.reusedOnly reused

theorem context_foldl (callbacks : List ErrorCallback) (e : Error) :
    (callbacks.foldl (apply errors display) e).context =
      (callbacks.filterMap (context display)).reverse ++ e.context := by
  induction callbacks generalizing e with
  | nil => rfl
  | cons callback callbacks ih =>
    rw [List.foldl_cons, ih]
    rcases apply_cases display documented e callback with
      ⟨-, none, same⟩ | ⟨_, text, -, some, next⟩
    · rw [same, List.filterMap_cons_none none]
    · rw [next, List.filterMap_cons_some some, List.reverse_cons, List.append_assoc]
      rfl

end ErrorCallback

variable {errors : Errors} {display : HttpPeer → String}
  {respondError : UInt16 → Session → Except ProxyError Unit × Session}

/-- `fail_to_proxy` looks at the kind of an error only. -/
theorem failToProxy_congr {e e' : Error} (same : e.kind = e'.kind) (session : Session) :
    failToProxy respondError session e = failToProxy respondError session e' := by
  unfold failToProxy errorCode
  rw [same]

/-- However many callbacks have run on an error: it is answered, and allows stale content, as
if none had. The first `error_while_proxy` has settled whether it is retried, unless that was
settled before. The peers of all of them are named, the last one first. -/
theorem reported_exact (documented : errors.Documented) (callbacks : List ErrorCallback)
    (e : Error) (session : Session) :
    failToProxy respondError session (callbacks.foldl (ErrorCallback.apply errors display) e) =
        failToProxy respondError session e ∧
      shouldServeStale (some (callbacks.foldl (ErrorCallback.apply errors display) e)) =
        shouldServeStale (some e) ∧
      (callbacks.foldl (ErrorCallback.apply errors display) e).retry =
        ErrorCallback.settled callbacks e.retry ∧
      (callbacks.foldl (ErrorCallback.apply errors display) e).context =
        (callbacks.filterMap (ErrorCallback.context display)).reverse ++ e.context := by
  have kind := ErrorCallback.kind_foldl display documented callbacks e
  refine ⟨failToProxy_congr kind session, ?_,
    ErrorCallback.retry_foldl display documented callbacks e,
    ErrorCallback.context_foldl display documented callbacks e⟩
  unfold shouldServeStale
  simp only [kind]

/-- A connection fails, and then another one that had been used before. -/
def twoFailures : List ErrorCallback :=
  [.failToConnect ⟨"127.0.0.1:1", false, "c.com", 2, 2⟩,
    .errorWhileProxy ⟨"127.0.0.1:2", false, "c.com", 2, 2⟩ false true]

theorem reported_exact_twice :
    let e : Error := ⟨⟨.connectionClosed, .upstream⟩, .reusedOnly, ["reading"]⟩
    let e' := twoFailures.foldl (ErrorCallback.apply .plain HttpPeer.address) e
    let respondError code (session : Session) := session.write (.header (.build code) true)
    failToProxy respondError (Serving.sessionFor "c.com") e' =
        failToProxy respondError (Serving.sessionFor "c.com") e ∧
      shouldServeStale (some e') = shouldServeStale (some e) ∧ e'.retry = .decided true ∧
      e'.context = ["Peer: 127.0.0.1:2", "reading"] :=
  reported_exact Errors.plain_documented twoFailures _ _

/-! ## Requests without a peer -/

section Runs
open Serving

variable {rotation : Rotation} {checks : HealthChecks} {exist : FileSystem}
  {raw : SimpleProxyConfig} {config : ProxyConfigResolved}
  {servers : KeyMap String ServerConfigResolved} {proxy : SimpleProxy} {s : Serving.State}

/-- An error that was made by the code itself, after any callbacks on it. -/
theorem failToProxy_create (documented : errors.Documented) {code : UInt16} (answers : code > 0)
    {source : ErrorSource} (callbacks : List ErrorCallback) (session : Session) :
    failToProxy respondError session (callbacks.foldl (ErrorCallback.apply errors display)
        (errors.create ⟨.httpStatus code, source⟩)) =
      (⟨code, false⟩, (respondError code session).2) := by
  have kind := (ErrorCallback.kind_foldl display documented callbacks _).trans
    (documented.create ⟨.httpStatus code, source⟩).1
  unfold failToProxy errorCode
  simp [kind, answers]

/-- The error of an attempt that gets no peer tells whether the file lists the host. -/
theorem refused_code (static : checks.Static)
    (resolved : ProxyConfigResolved.tryFrom exist raw = .ok config)
    (reordered : servers.entries.Perm config.servers.entries)
    (made : tryNew rotation.toPingora { config with servers := servers } = .ok proxy)
    {before after : List Serving.Event} {id : Nat} {host : String} {kind : ProxyError}
    (run : Run (Serving.Step rotation checks) (start proxy)
      (before ++ .peer id host (.error kind) :: after) s) :
    (kind = ⟨.httpStatus 404, .upstream⟩ ∧ ∀ server ∈ raw.servers, host ∉ server.serverName) ∨
      (kind = ⟨.httpStatus 502, .upstream⟩ ∧
        ∃ server ∈ raw.servers, host ∈ server.serverName) := by
  obtain ⟨mid, next, earlier, hstep⟩ := run.cut before _ after rfl
  obtain ⟨ctx, held, rfl, answer⟩ := step_peer hstep
  obtain ⟨unlisted, block⟩ := routed_of_settings resolved reordered made
    ((run_keeps static earlier).contexts id ctx held)
  rcases upstreamPeer_eq_error answer.symm with ⟨absent, rfl⟩ | ⟨entry, present, rfl⟩
  · exact .inl ⟨rfl, unlisted absent⟩
  · obtain ⟨server, mem, listed, -⟩ := block entry present
    exact .inr ⟨rfl, server, mem, listed⟩

/-- In every run of a proxy that was made from a configuration file, an attempt that gets no
peer is answered by 404 if no block of the file lists the host and by 502 if one does. The
connection to the client is given up, and the error is not to be retried. -/
theorem refused_exact (documented : errors.Documented) (static : checks.Static)
    (resolved : ProxyConfigResolved.tryFrom exist raw = .ok config)
    (reordered : servers.entries.Perm config.servers.entries)
    (made : tryNew rotation.toPingora { config with servers := servers } = .ok proxy)
    {before after : List Serving.Event} {id : Nat} {host : String} {kind : ProxyError}
    (run : Run (Serving.Step rotation checks) (start proxy)
      (before ++ .peer id host (.error kind) :: after) s)
    (callbacks : List ErrorCallback) (session : Session) :
    ∃ code, ((code = 404 ∧ ∀ server ∈ raw.servers, host ∉ server.serverName) ∨
        (code = 502 ∧ ∃ server ∈ raw.servers, host ∈ server.serverName)) ∧
      failToProxy respondError session
          (callbacks.foldl (ErrorCallback.apply errors display) (errors.create kind)) =
        (⟨code, false⟩, (respondError code session).2) ∧
      (callbacks.foldl (ErrorCallback.apply errors display) (errors.create kind)).retry =
        .decided false := by
  have retry := ErrorCallback.retry_foldl_decided display documented callbacks
    (documented.create kind).2
  rcases refused_code static resolved reordered made run with ⟨rfl, unlisted⟩ | ⟨rfl, listed⟩
  · exact ⟨404, .inl ⟨rfl, unlisted⟩,
      failToProxy_create documented (by decide) callbacks session, retry⟩
  · exact ⟨502, .inr ⟨rfl, listed⟩,
      failToProxy_create documented (by decide) callbacks session, retry⟩

theorem refused_exact_stranger : ∃ code,
    ((code = 404 ∧ ∀ server ∈ tenants.servers, "c.com" ∉ server.serverName) ∨
        (code = 502 ∧ ∃ server ∈ tenants.servers, "c.com" ∈ server.serverName)) ∧
      failToProxy (fun code session => session.write (.header (.build code) true))
          (sessionFor "c.com") (twoFailures.foldl (ErrorCallback.apply .plain HttpPeer.address)
            (Errors.plain.create ⟨.httpStatus 404, .upstream⟩)) =
        (⟨code, false⟩, ((sessionFor "c.com").write (.header (.build code) true)).2) ∧
      (twoFailures.foldl (ErrorCallback.apply .plain HttpPeer.address)
        (Errors.plain.create ⟨.httpStatus 404, .upstream⟩)).retry = .decided false := by
  obtain ⟨s, run⟩ : ∃ s, Run (Serving.Step .roundRobin passing) (Serving.start tenantsProxy)
      ([.filter 0 (sessionFor "c.com") (.ofSecs 410 (by decide)) (.ok false)] ++
        .peer 0 "c.com" (.error ⟨.httpStatus 404, .upstream⟩) :: []) s :=
    ⟨_, (Run.nil.snoc ⟨.filter 0 (sessionFor "c.com") (.ofSecs 410 (by decide)), rfl⟩).snoc
      ⟨.peer 0, rfl⟩⟩
  exact refused_exact Errors.plain_documented passing_static tenants_resolved (.refl _)
    tenantsProxy_made run _ _

end Runs

end SimpleProxy

end SimplyProxy
