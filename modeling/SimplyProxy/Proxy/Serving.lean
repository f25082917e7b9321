import Mathlib.Logic.Function.Basic
import SimplyProxy.Proxy.Operations
import SimplyProxy.Proxy.Selection

/-!
# The proxy with its load balancers

The callbacks of many requests and the rounds of the health service run side by side.
A request goes through `request_filter` once and then through `upstream_peer`, once for
each attempt to reach an upstream. In between, other requests run, probes come back and a
configuration may be stored. A route entry is cloned into the context of its request, and
all its clones share one load balancer, whose state is kept here under the host name.

Each of them is one step. So a call of `request_filter` overlaps no other one, and the
selection of a backend for a host, which reads its counter and its health at every try,
overlaps no other selection for the host and no probe of it.

1. `simulates`: the load balancer of a host does in the whole system what it would do alone.
   Nothing else touches its health or its counter.
2. `alone_turns`: alone, it is a `Rotor` over its backends.
-/

namespace SimplyProxy
namespace Serving
open Runs RoundRobin SimpleProxy

/-! ## Steps -/

/-- `contexts` has those of the requests that `request_filter` has let pass. -/
structure State where
  proxy : SimpleProxy
  balancers : String → Rotor Backend
  contexts : Nat → Option ProxyContext

inductive Action
  | filter (id : Nat) (session : Session) (now : Instant)
  | peer (id : Nat)
  /-- The health service comes to the entry of a host. -/
  | check (host : String)
  /-- A probe that it has started comes back. A single result decides. -/
  | probe (host : String) (backend : Backend) (up : Bool)
  | update (config : ProxyConfigResolved)

/-- An action with what it has returned. -/
inductive Event
  | filter (id : Nat) (session : Session) (now : Instant) (outcome : Outcome ProxyError Bool)
  | peer (id : Nat) (host : String) (answer : Except ProxyError HttpPeer)
  | check (host : String)
  | probe (host : String) (backend : Backend) (up : Bool)
  | update (config : ProxyConfigResolved)

/-- All backends of a new load balancer are healthy. -/
def start (proxy : SimpleProxy) : State := ⟨proxy, fun _ => ⟨fun _ => true, 0⟩, fun _ => none⟩

/-- The counter of a route's load balancer behind `select`. -/
def turned (rotation : Rotation) (ctx : ProxyContext) (balancer : Rotor Backend) : Rotor Backend :=
  match ctx.routeEntry with
  | none => balancer
  | some entry => { balancer with
      next := rotation.counterAfter entry.upstream balancer.up balancer.next [] 32
        RouteEntry.accept }

/-- The contexts behind a call of `request_filter`. -/
def enroll (contexts : Nat → Option ProxyContext) (id : Nat) (reply : Reply) :
    Nat → Option ProxyContext :=
  if reply.outcome = .ok false then Function.update contexts id (some reply.ctx) else contexts

variable (rotation : Rotation) (checks : HealthChecks)

/-- One step, with all that it does at once; `none` when it is not possible in this state. -/
def perform (s : State) : Action → Option (Event × State)
  | .filter id session now =>
    if (s.contexts id).isNone then
      let reply := s.proxy.requestFilter session newCtx now
      some (.filter id session now reply.outcome,
        { s with proxy := reply.proxy, contexts := enroll s.contexts id reply })
    else none
  | .peer id =>
    match s.contexts id with
    | none => none
    | some ctx =>
      let balancer := s.balancers ctx.host
      some (.peer id ctx.host (upstreamPeer rotation.toPingora balancer.up balancer.next ctx),
        { s with balancers := Function.update s.balancers ctx.host (turned rotation ctx balancer) })
  | .check host =>
    let visit _host entry := some (HealthService.checkEntry checks entry)
    some (.check host, { s with
      proxy := { s.proxy with routeTable := s.proxy.routeTable.retainAt visit host } })
  | .probe host backend up =>
    some (.probe host backend up, { s with
      balancers := Function.update s.balancers host ((s.balancers host).marked backend up) })
  | .update config => some (.update config, { s with proxy := s.proxy.update config })

def Step (s : State) (e : Event) (s' : State) : Prop :=
  ∃ action, perform rotation checks s action = some (e, s')

variable {rotation checks} {s s' : State} {e : Event}

/-- What a step can be. -/
theorem step_cases (h : Step rotation checks s e s') :
    (∃ id session now, s.contexts id = none ∧
      e = .filter id session now (s.proxy.requestFilter session newCtx now).outcome ∧
      s' = { s with
        proxy := (s.proxy.requestFilter session newCtx now).proxy
        contexts := enroll s.contexts id (s.proxy.requestFilter session newCtx now) }) ∨
    (∃ id ctx, s.contexts id = some ctx ∧
      e = .peer id ctx.host (upstreamPeer rotation.toPingora (s.balancers ctx.host).up
        (s.balancers ctx.host).next ctx) ∧
      s' = { s with
        balancers := Function.update s.balancers ctx.host
          (turned rotation ctx (s.balancers ctx.host)) }) ∨
    (∃ host, e = .check host ∧ s' = { s with
      proxy := { s.proxy with
        routeTable := s.proxy.routeTable.retainAt
          (fun _ entry => some (HealthService.checkEntry checks entry)) host } }) ∨
    (∃ host backend up, e = .probe host backend up ∧ s' = { s with
      balancers := Function.update s.balancers host ((s.balancers host).marked backend up) }) ∨
    (∃ config, e = .update config ∧ s' = { s with proxy := s.proxy.update config }) := by
  obtain ⟨action, performed⟩ := h
  cases action with
  | filter id session now =>
    simp only [perform, Option.isNone_iff_eq_none, Option.ite_none_right_eq_some,
      Option.some.injEq, Prod.mk.injEq] at performed
    obtain ⟨fresh, rfl, rfl⟩ := performed
    exact .inl ⟨id, session, now, fresh, rfl, rfl⟩
  | peer id =>
    simp only [perform] at performed
    split at performed
    · cases performed
    · next ctx held =>
      obtain ⟨rfl, rfl⟩ := Prod.mk.inj (Option.some.inj performed)
      exact .inr (.inl ⟨id, ctx, held, rfl, rfl⟩)
  | check host =>
    obtain ⟨rfl, rfl⟩ := Prod.mk.inj (Option.some.inj performed)
    exact .inr (.inr (.inl ⟨host, rfl, rfl⟩))
  | probe host backend up =>
    obtain ⟨rfl, rfl⟩ := Prod.mk.inj (Option.some.inj performed)
    exact .inr (.inr (.inr (.inl ⟨host, backend, up, rfl, rfl⟩)))
  | update config =>
    obtain ⟨rfl, rfl⟩ := Prod.mk.inj (Option.some.inj performed)
    exact .inr (.inr (.inr (.inr ⟨config, rfl, rfl⟩)))

/-- A request that has not been through `request_filter` may go there. -/
theorem filter_step {id : Nat} {session : Session} {now : Instant}
    {outcome : Outcome ProxyError Bool} (fresh : (s.contexts id).isNone = true)
    (ends : (s.proxy.requestFilter session newCtx now).outcome = outcome) :
    Step rotation checks s (.filter id session now outcome)
      { s with
        proxy := (s.proxy.requestFilter session newCtx now).proxy
        contexts := enroll s.contexts id (s.proxy.requestFilter session newCtx now) } :=
  ⟨.filter id session now, by simp [perform, fresh, ends]⟩

/-- An attempt is answered by the route in the context of its request. -/
theorem step_peer {id : Nat} {host : String} {answer : Except ProxyError HttpPeer}
    (h : Step rotation checks s (.peer id host answer) s') :
    ∃ ctx, s.contexts id = some ctx ∧ host = ctx.host ∧
      answer = upstreamPeer rotation.toPingora (s.balancers ctx.host).up
        (s.balancers ctx.host).next ctx := by
  rcases step_cases h with ⟨_, _, _, -, equal, -⟩ | ⟨_, ctx, held, equal, -⟩ | ⟨_, equal, -⟩ |
    ⟨_, _, _, equal, -⟩ | ⟨_, equal, -⟩ <;> cases equal
  exact ⟨ctx, held, rfl, rfl⟩

/-! ## The routes -/

/-- What of a route entry decides about requests. -/
def settings (entry : RouteEntry) : List Backend × Bool := (entry.upstream.backends, entry.tls)

/-- The routes are those of `table`, and every context has the one of its host. -/
structure Keeps (table : RouteTable) (s : State) : Prop where
  routes : ∀ name,
    (s.proxy.routeTable.get name).map settings = (table.get name).map settings
  contexts : ∀ id ctx, s.contexts id = some ctx →
    ctx.routeEntry.map settings = (table.get ctx.host).map settings

variable {table : RouteTable}

theorem keeps_start (proxy : SimpleProxy) : Keeps proxy.routeTable (start proxy) :=
  ⟨fun _ => rfl, nofun⟩

/-- A context that `request_filter` fills has the route of its host. -/
theorem enroll_cases {contexts : Nat → Option ProxyContext} {self : SimpleProxy} {session : Session}
    {now : Instant} {id id' : Nat} {ctx : ProxyContext}
    (h : enroll contexts id (self.requestFilter session newCtx now) id' = some ctx) :
    contexts id' = some ctx ∨
      (id' = id ∧ (self.requestFilter session newCtx now).outcome = .ok false ∧
        ctx = self.route session newCtx) := by
  unfold enroll at h
  split at h
  · next passed =>
    rw [Function.update_apply] at h
    split at h
    · next same =>
      rw [requestFilter_passed passed] at h
      exact .inr ⟨same, passed, (Option.some.inj h).symm⟩
    · exact .inl h
  · exact .inl h

theorem checkEntry_settings (static : checks.Static) (entry : RouteEntry) :
    settings (HealthService.checkEntry checks entry) = settings entry := by
  unfold settings
  rw [HealthService.checkEntry_backends static]
  rfl

/-- Whatever happens, the routes stay. -/
theorem Keeps.step (h : Keeps table s) (static : checks.Static)
    (hstep : Step rotation checks s e s') : Keeps table s' := by
  rcases step_cases hstep with ⟨id, session, now, -, -, rfl⟩ | ⟨id, ctx, -, -, rfl⟩ |
    ⟨checked, -, rfl⟩ | ⟨probed, backend, up, -, rfl⟩ | ⟨config, -, rfl⟩
  · refine ⟨fun name => ?_, fun id' ctx' admitted => ?_⟩
    · rw [requestFilter_routeTable, h.routes]
    · rcases enroll_cases admitted with old | ⟨-, -, rfl⟩
      · exact h.contexts id' ctx' old
      · rw [route_routeEntry, h.routes, route_host]
  · exact ⟨h.routes, h.contexts⟩
  · refine ⟨fun name => ?_, h.contexts⟩
    rw [← h.routes]
    show (KeyMap.get (KeyMap.retainAt _ _ _) name).map settings = _
    rw [KeyMap.get_retainAt]
    split
    · next own =>
      subst own
      cases s.proxy.routeTable.get name with
      | none => rfl
      | some held => exact congrArg some (checkEntry_settings static held)
    · rfl
  · exact ⟨h.routes, h.contexts⟩
  · exact ⟨h.routes, h.contexts⟩

theorem run_keeps (static : checks.Static) {proxy : SimpleProxy} {events : List Event}
    (run : Run (Step rotation checks) (start proxy) events s) : Keeps proxy.routeTable s :=
  run.invariant (I := fun _ s => Keeps proxy.routeTable s) (keeps_start proxy)
    fun keeps hstep => keeps.step static hstep

/-! ## One host -/

variable {host : String} {entry : RouteEntry}

/-- What is asked of the load balancer of a host. -/
inductive Asked
  | peer
  | probe (backend : Backend) (up : Bool)

/-- A question with its answer, if it has one. -/
abbrev Dealing := Asked × Option (Except ProxyError HttpPeer)

/-- The part that the load balancer of the host has in an event. -/
def dealing (host : String) : Event → Option Dealing
  | .filter _ _ _ _ => none
  | .peer _ own answer => if own = host then some (.peer, some answer) else none
  | .check _ => none
  | .probe own backend up => if own = host then some (.probe backend up, none) else none
  | .update _ => none

/-- A load balancer without a proxy around it. -/
def alone (rotation : Rotation) (ctx : ProxyContext) (balancer : Rotor Backend) :
    Asked → Option (Except ProxyError HttpPeer) × Rotor Backend
  | .peer => (some (upstreamPeer rotation.toPingora balancer.up balancer.next ctx),
      turned rotation ctx balancer)
  | .probe backend up => (none, balancer.marked backend up)

def AloneStep (rotation : Rotation) (ctx : ProxyContext) (balancer : Rotor Backend) (d : Dealing)
    (balancer' : Rotor Backend) : Prop :=
  alone rotation ctx balancer d.1 = (d.2, balancer')

/-- The context of every request for a host, as far as `upstream_peer` looks at it. -/
def hostCtx (host : String) (entry : RouteEntry) : ProxyContext :=
  { newCtx with routeEntry := some entry, host := host }

/-- Only the settings of the entry matter, for the answer and for the counter. -/
theorem hostCtx_settings (rotates : rotation.InTurn) {ctx : ProxyContext}
    (routed : ctx.routeEntry.map settings = some (settings entry)) (balancer : Rotor Backend) :
    upstreamPeer rotation.toPingora balancer.up balancer.next ctx =
        upstreamPeer rotation.toPingora balancer.up balancer.next (hostCtx ctx.host entry) ∧
      turned rotation ctx balancer = turned rotation (hostCtx ctx.host entry) balancer := by
  obtain ⟨held, present, same⟩ := Option.map_eq_some_iff.mp routed
  obtain ⟨backends, tls⟩ := Prod.mk.inj same
  have selected : held.select rotation.toPingora balancer.up balancer.next =
      entry.select rotation.toPingora balancer.up balancer.next := by
    unfold RouteEntry.select
    rw [rotates.walks, rotates.walks, backends]
  constructor
  · unfold upstreamPeer hostCtx
    simp only [present, selected, tls]
  · unfold turned hostCtx
    simp only [present]
    rw [rotates.backendsOnly _ _ _ _ _ _ _ backends]

/-- The load balancer of a host in the whole system does what it would do alone. -/
theorem simulates (rotates : rotation.InTurn) (static : checks.Static)
    (routed : (table.get host).map settings = some (settings entry)) :
    Simulates (Step rotation checks) (AloneStep rotation (hostCtx host entry)) (dealing host)
      fun s balancer => Keeps table s ∧ s.balancers host = balancer where
  hidden := by
    rintro s _ e s' ⟨keeps, rfl⟩ hstep other
    refine ⟨keeps.step static hstep, ?_⟩
    rcases step_cases hstep with ⟨id, session, now, -, -, rfl⟩ | ⟨id, ctx, -, rfl, rfl⟩ |
      ⟨checked, -, rfl⟩ | ⟨probed, backend, up, rfl, rfl⟩ | ⟨config, -, rfl⟩
    · rfl
    · simp only [dealing, ite_eq_right_iff, reduceCtorEq, imp_false] at other
      exact Function.update_of_ne (Ne.symm other) _ _
    · rfl
    · simp only [dealing, ite_eq_right_iff, reduceCtorEq, imp_false] at other
      exact Function.update_of_ne (Ne.symm other) _ _
    · rfl
  visible := by
    rintro s _ e s' d ⟨keeps, rfl⟩ hstep own
    refine ⟨s'.balancers host, ?_, keeps.step static hstep, rfl⟩
    rcases step_cases hstep with ⟨id, session, now, -, rfl, -⟩ | ⟨id, ctx, held, rfl, rfl⟩ |
      ⟨checked, rfl, -⟩ | ⟨probed, backend, up, rfl, rfl⟩ | ⟨config, rfl, -⟩
    · cases own
    · simp only [dealing, Option.ite_none_right_eq_some, Option.some.injEq] at own
      obtain ⟨rfl, rfl⟩ := own
      obtain ⟨answer, counter⟩ := hostCtx_settings rotates
        ((keeps.contexts id ctx held).trans routed) (s.balancers ctx.host)
      simp only [AloneStep, alone, Function.update_self, answer, counter]
    · cases own
    · simp only [dealing, Option.ite_none_right_eq_some, Option.some.injEq] at own
      obtain ⟨rfl, rfl⟩ := own
      simp only [AloneStep, alone, Function.update_self]
    · cases own

/-! ## One load balancer -/

/-- The backend of an answer. -/
def chosen (answer : Except ProxyError HttpPeer) : Option Backend :=
  answer.toOption.map fun peer => ⟨peer.address⟩

/-- A dealing as an event of a rotor. -/
def turning : Dealing → Rotor.Event Backend
  | (.peer, answer) => .pick (answer.bind chosen)
  | (.probe backend up, _) => .mark backend up

/-- Alone, a load balancer is a rotor over its backends: `upstream_peer` is a walk. -/
theorem alone_turns (rotates : rotation.InTurn) (host : String) (entry : RouteEntry) :
    Simulates (AloneStep rotation (hostCtx host entry)) (Rotor.Step entry.upstream.backends 32)
      (fun d => some (turning d)) Eq where
  hidden := nofun
  visible := by
    rintro balancer _ ⟨question, answer⟩ balancer' _ rfl dealt seen
    obtain rfl := Option.some.inj seen
    refine ⟨balancer', ?_, rfl⟩
    cases question with
    | probe backend up =>
      obtain ⟨-, rfl⟩ := Prod.mk.inj dealt
      exact .mark balancer backend up
    | peer =>
      obtain ⟨rfl, rfl⟩ := Prod.mk.inj dealt
      have selected : entry.select rotation.toPingora balancer.up balancer.next =
          (walkOn entry.upstream.backends balancer.up 32 balancer.next).map Prod.fst := by
        rw [RouteEntry.select_eq_find? rotates.walks, walkOn_fst]
      simp only [turning, Option.bind_some, upstreamPeer, turned, hostCtx, selected]
      cases walked : walkOn entry.upstream.backends balancer.up 32 balancer.next with
      | none => exact .miss walked
      | some found =>
        obtain ⟨backend, next'⟩ := found
        rw [rotates.leaves entry.upstream balancer.up balancer.next [] 32 RouteEntry.accept backend
          next' walked]
        exact .pick walked

end Serving

end SimplyProxy
