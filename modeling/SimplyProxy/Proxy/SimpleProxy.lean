import SimplyProxy.Proxy.Json
import SimplyProxy.Proxy.Route
import SimplyProxy.RateLimit.Limiter
import SimplyProxy.Utils.HostPort

/-!
# The proxy and its callbacks

`SimpleProxy` and `ProxyContext` of `proxy/mod.rs` and the callbacks of
`proxy/simple_proxy.rs` that a request and its response go through. A callback
takes what the code mutates and returns it together with its result. Log messages
are left out.
-/

namespace SimplyProxy

structure SimpleProxy where
  config : ProxyConfigResolved
  routeTable : RouteTable
  rateLimiter : Option RateLimiter

/-- What the callbacks of one request share. -/
structure ProxyContext where
  routeEntry : Option RouteEntry
  host : String
  port : UInt16
  respContentType : Option String
  respBody : Option Bytes

namespace SimpleProxy

/-- The rate limiter of a configuration. -/
def limiterOf (config : ProxyConfigResolved) : Except Panic (Option RateLimiter) :=
  config.global.rateLimit.mapM fun rl => RateLimiter.new rl.maxRequests rl.window

def tryNew (pingora : Pingora) (config : ProxyConfigResolved) : Outcome String SimpleProxy :=
  match RouteTable.tryNew pingora config with
  | .error e => .err e
  | .ok routeTable =>
    match limiterOf config with
    | .error p => .panic p
    | .ok rateLimiter => .ok ⟨config, routeTable, rateLimiter⟩

def newCtx : ProxyContext := ⟨none, "", 80, none, none⟩

/-! ## Requests -/

/-- The rate-limit key of a client. -/
def limitKey (session : Session) : String :=
  (session.clientAddr.map SocketAddr.toString).getD "unknown"

/-- Whether the request counts against the limit: all paths but one do. -/
def limited (session : Session) : Bool := session.reqHeader.uri.path ≠ "/health"

def tooManyRequestsHeader (limiter : RateLimiter) : ResponseHeader :=
  let retryAfter := limiter.window.asSecs
  let header := ResponseHeader.build 429
  let header := header.insertHeader "retry-after" (.ofText (toString retryAfter))
  header.insertHeader "content-type" (.ofText "text/plain")

/-- Answers a request over the limit. -/
def tooManyRequests (limiter : RateLimiter) (session : Session) :
    Except ProxyError Unit × Session :=
  match session.write (.header (tooManyRequestsHeader limiter) false) with
  | (.error e, session) => (.error e, session)
  | (.ok (), session) => session.write (.body (HeaderValue.ofText "Too Many Requests").bytes true)

/-- The part of `request_filter` behind the rate limit. -/
def route (self : SimpleProxy) (session : Session) (ctx : ProxyContext) : ProxyContext :=
  let (host, port) := getHostPort (session.getHeader "host") session.reqHeader.uri
  { ctx with routeEntry := self.routeTable.get host, host := host, port := port }

/-- What a call of `request_filter` leaves: its result, and what it has mutated. -/
structure Reply where
  outcome : Outcome ProxyError Bool
  proxy : SimpleProxy
  session : Session
  ctx : ProxyContext

def requestFilter (self : SimpleProxy) (session : Session) (ctx : ProxyContext) (now : Instant) :
    Reply :=
  match self.rateLimiter with
  | none => ⟨.ok false, self, session, self.route session ctx⟩
  | some limiter =>
    if limited session then
      match limiter.allow (limitKey session) now with
      | .error p => ⟨.panic p, self, session, ctx⟩
      | .ok (true, limiter) =>
        ⟨.ok false, { self with rateLimiter := some limiter }, session, self.route session ctx⟩
      | .ok (false, limiter) =>
        let self := { self with rateLimiter := some limiter }
        -- the answer may be written in part before a write fails
        match tooManyRequests limiter session with
        | (.error e, session) => ⟨.err e, self, session, ctx⟩
        | (.ok (), session) => ⟨.ok true, self, session, ctx⟩
    else ⟨.ok false, self, session, self.route session ctx⟩

/-- A proxy without servers, with the given limiter. -/
def limitedBy (limiter : RateLimiter) : SimpleProxy :=
  ⟨⟨⟨8080, none, some ⟨limiter.maxRequests, limiter.window⟩⟩, ∅⟩, ∅, some limiter⟩

/-- How a refused request ends, by how writing its answer ended. -/
def refusal : Except ProxyError Unit → Outcome ProxyError Bool
  | .error e => .err e
  | .ok () => .ok true

theorem refusal_ne_passed (written : Except ProxyError Unit) : refusal written ≠ .ok false := by
  rcases written with e | ⟨⟩ <;> simp [refusal]

theorem refusal_ne_panic (written : Except ProxyError Unit) (p : Panic) :
    refusal written ≠ .panic p := by
  rcases written with e | ⟨⟩ <;> simp [refusal]

/-- All that `request_filter` can do: let a request pass that does not count; panic
in the limiter; let a request pass that the limiter admits; answer one that it
refuses. Only a request that passes gets a route. -/
theorem requestFilter_cases (self : SimpleProxy) (session : Session) (ctx : ProxyContext)
    (now : Instant) :
    ((self.rateLimiter = none ∨ limited session = false) ∧
      self.requestFilter session ctx now = ⟨.ok false, self, session, self.route session ctx⟩) ∨
    (∃ l p, self.rateLimiter = some l ∧ limited session = true ∧
      l.allow (limitKey session) now = .error p ∧
      self.requestFilter session ctx now = ⟨.panic p, self, session, ctx⟩) ∨
    (∃ l l', self.rateLimiter = some l ∧ limited session = true ∧
      l.allow (limitKey session) now = .ok (true, l') ∧ self.requestFilter session ctx now =
        ⟨.ok false, { self with rateLimiter := some l' }, session, self.route session ctx⟩) ∨
    (∃ l l' written session', self.rateLimiter = some l ∧ limited session = true ∧
      l.allow (limitKey session) now = .ok (false, l') ∧
      tooManyRequests l' session = (written, session') ∧ self.requestFilter session ctx now =
        ⟨refusal written, { self with rateLimiter := some l' }, session', ctx⟩) := by
  unfold requestFilter
  cases limiter : self.rateLimiter with
  | none => exact .inl ⟨.inl rfl, rfl⟩
  | some l =>
    cases counts : limited session with
    | false => exact .inl ⟨.inr rfl, rfl⟩
    | true =>
      right
      cases answer : l.allow (limitKey session) now with
      | error p => exact .inl ⟨l, p, rfl, rfl, answer, by simp [answer]⟩
      | ok r =>
        obtain ⟨passed, l'⟩ := r
        right
        cases passed with
        | true => exact .inl ⟨l, l', rfl, rfl, answer, by simp [answer]⟩
        | false =>
          right
          rcases answered : tooManyRequests l' session with ⟨e | _, session'⟩
          · exact ⟨l, l', _, _, rfl, rfl, answer, answered, by simp [answer, answered, refusal]⟩
          · exact ⟨l, l', _, _, rfl, rfl, answer, answered, by simp [answer, answered, refusal]⟩

/-- What a request does to the limiter: nothing when it does not count or panics, one
call of `allow` otherwise. -/
theorem requestFilter_rateLimiter {self : SimpleProxy} {l : RateLimiter}
    (held : self.rateLimiter = some l) (session : Session) (ctx : ProxyContext) (now : Instant) :
    ((limited session = false ∨ ∃ p, l.allow (limitKey session) now = .error p) ∧
      (self.requestFilter session ctx now).proxy = self) ∨
    ∃ answer l', limited session = true ∧ l.allow (limitKey session) now = .ok (answer, l') ∧
      (self.requestFilter session ctx now).proxy = { self with rateLimiter := some l' } := by
  rcases self.requestFilter_cases session ctx now with
    ⟨free, reply⟩ | ⟨l₁, p, held₁, -, failed, reply⟩ | ⟨l₁, l', held₁, counts, passed, reply⟩ |
    ⟨l₁, l', _, _, held₁, counts, refused, -, reply⟩
  · refine .inl ⟨.inl (free.resolve_left ?_), by rw [reply]⟩
    simp [held]
  all_goals obtain rfl : l = l₁ := Option.some.inj (held.symm.trans held₁)
  · exact .inl ⟨.inr ⟨p, failed⟩, by rw [reply]⟩
  · exact .inr ⟨true, l', counts, passed, by rw [reply]⟩
  · exact .inr ⟨false, l', counts, refused, by rw [reply]⟩

def upstreamPeer (pingora : Pingora) (health : Backend → Bool) (next : Nat) (ctx : ProxyContext) :
    Except ProxyError HttpPeer :=
  match ctx.routeEntry with
  | none => .error ⟨.httpStatus 404, .upstream⟩
  | some routeEntry =>
    match routeEntry.select pingora health next with
    | none => .error ⟨.httpStatus 502, .upstream⟩
    | some upstream =>
      .ok ((HttpPeer.new upstream.addr routeEntry.tls ctx.host).setHttpVersion 2 2)

def upstreamRequestFilter (upstreamRequest : RequestHeader) : RequestHeader :=
  { upstreamRequest with
    headers := upstreamRequest.headers.insert "user-agent" (.ofText "SimpleProxy/0.1") }

/-! ## Responses -/

def upstreamResponseFilter (upstreamResponse : ResponseHeader) (ctx : ProxyContext) :
    ResponseHeader × ProxyContext :=
  let ctx := { ctx with
    respContentType := (upstreamResponse.headers.get "content-type").bind HeaderValue.toStr }
  let upstreamResponse := upstreamResponse.removeHeader "Content-Length"
  let upstreamResponse := upstreamResponse.insertHeader "transfer-encoding" (.ofText "chunked")
  let upstreamResponse := upstreamResponse.insertHeader "x-simple-proxy" (.ofText "v0.1")
  let upstreamResponse :=
    if upstreamResponse.headers.containsKey "server" then upstreamResponse
    else upstreamResponse.insertHeader "server" (.ofText "SimpleProxy/0.1")
  (upstreamResponse, ctx)

/-- Adds a chunk to the buffered body. -/
def buffer (body : Option Bytes) (ctx : ProxyContext) : ProxyContext :=
  match body with
  | none => ctx
  | some body => { ctx with respBody := some (ctx.respBody.getD [] ++ body) }

def isJson (contentType : String) : Bool := "application/json".toList.isPrefixOf contentType.toList

/-- What a call of `upstream_response_body_filter` leaves. -/
structure BodyReply where
  outcome : Except ProxyError (Option Duration)
  body : Option Bytes
  ctx : ProxyContext

def upstreamResponseBodyFilter (serde : SerdeJson) (body : Option Bytes) (endOfStream : Bool)
    (ctx : ProxyContext) : BodyReply :=
  let ctx := buffer body ctx
  -- a chunk that is not the last one is held back
  if !endOfStream then ⟨.ok none, none, ctx⟩
  else
    match ctx.respBody with
    | none => ⟨.ok none, body, ctx⟩
    | some respBody =>
      -- the buffer is taken; from here on a return leaves `body` as this call got it
      let ctx := { ctx with respBody := none }
      match ctx.respContentType with
      | none => ⟨.ok none, body, ctx⟩
      | some contentType =>
        if !isJson contentType then ⟨.ok none, body, ctx⟩
        else
          match serde.fromSlice respBody with
          | none => ⟨.ok none, body, ctx⟩
          | some jsonBody =>
            match serde.toWriter (tag jsonBody) with
            | none => ⟨.error ⟨.httpStatus 500, .upstream⟩, body, ctx⟩
            | some data => ⟨.ok none, some data, ctx⟩

def upstreamResponseTrailerFilter (upstreamTrailers : HeaderMap) (ctx : ProxyContext) :
    Except ProxyError Unit × HeaderMap × ProxyContext := (.ok (), upstreamTrailers, ctx)

def responseTrailerFilter (upstreamTrailers : HeaderMap) (ctx : ProxyContext) :
    Except ProxyError (Option Bytes) × HeaderMap × ProxyContext :=
  (.ok none, upstreamTrailers, ctx)

end SimpleProxy

end SimplyProxy
