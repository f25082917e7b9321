import SimplyProxy.Base.Run
import SimplyProxy.Proxy.SimpleProxy

/-!
# Requests, one after another

Runs of `request_filter`: a proxy serves requests in order, and each call leaves the
proxy that serves the next one.

`serve_routeTable`: serving requests never changes the route table.
-/

namespace SimplyProxy
namespace SimpleProxy
open Runs

/-- A call of `request_filter`. -/
structure Request where
  session : Session
  ctx : ProxyContext
  now : Instant

/-- A call that has ended. -/
structure Served where
  request : Request
  outcome : Outcome ProxyError Bool

def Step (self : SimpleProxy) (e : Served) (self' : SimpleProxy) : Prop :=
  let reply := self.requestFilter e.request.session e.request.ctx e.request.now
  e.outcome = reply.outcome ∧ self' = reply.proxy

/-- Serves the requests in order and records them. -/
def serve (self : SimpleProxy) (requests : List Request) : List Served × SimpleProxy :=
  requests.foldl (fun s request =>
    let reply := s.2.requestFilter request.session request.ctx request.now
    (s.1 ++ [⟨request, reply.outcome⟩], reply.proxy)) ([], self)

theorem serve_run (self : SimpleProxy) (requests : List Request) :
    Run Step self (serve self requests).1 (serve self requests).2 ∧
      (serve self requests).1.map Served.request = requests := by
  induction requests using List.reverseRecOn with
  | nil => exact ⟨.nil, rfl⟩
  | append_singleton requests request ih =>
    simp only [serve, List.foldl_append, List.foldl_cons, List.foldl_nil] at ih ⊢
    exact ⟨ih.1.snoc ⟨rfl, rfl⟩, by simp [ih.2]⟩

/-- A request changes nothing but the limiter. -/
theorem requestFilter_proxy (self : SimpleProxy) (session : Session) (ctx : ProxyContext)
    (now : Instant) : ∃ limiter,
      (self.requestFilter session ctx now).proxy = { self with rateLimiter := limiter } := by
  rcases self.requestFilter_cases session ctx now with
    ⟨-, reply⟩ | ⟨_, _, -, -, -, reply⟩ | ⟨_, l', -, -, -, reply⟩ | ⟨_, l', _, _, -, -, -, -, reply⟩
  · exact ⟨self.rateLimiter, by rw [reply]⟩
  · exact ⟨self.rateLimiter, by rw [reply]⟩
  · exact ⟨some l', by rw [reply]⟩
  · exact ⟨some l', by rw [reply]⟩

theorem requestFilter_routeTable (self : SimpleProxy) (session : Session) (ctx : ProxyContext)
    (now : Instant) : (self.requestFilter session ctx now).proxy.routeTable = self.routeTable := by
  obtain ⟨limiter, changed⟩ := self.requestFilter_proxy session ctx now
  rw [changed]

theorem serve_routeTable (self : SimpleProxy) (requests : List Request) :
    (serve self requests).2.routeTable = self.routeTable := by
  refine (serve_run self requests).1.invariant
    (I := fun _ reached => reached.routeTable = self.routeTable) rfl ?_
  intro _ reached e next same hstep
  obtain ⟨-, rfl⟩ := hstep
  rw [requestFilter_routeTable, same]

end SimpleProxy

end SimplyProxy
