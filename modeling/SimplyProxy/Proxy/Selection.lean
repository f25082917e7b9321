import SimplyProxy.Proxy.SimpleProxy

/-!
# The backend of a request

`RouteEntry::select` gives the load balancer a budget of 32 steps. The design
document has 502 for the case that all backends are unhealthy.

1. `select_finds_iff`: a healthy backend is found exactly when one of the 32 backends
   that follow the counter is healthy. It is found in every state of the counter and
   under every health of the backends exactly in groups of at most 32 backends.
2. `select_misses`: of 33 backends the only healthy one is missed.
-/

namespace SimplyProxy
namespace RouteEntry

/-- A healthy backend of the entry is selected when there is one, and 502 means that
there is none. -/
structure Finds (entry : RouteEntry) (pingora : Pingora) (health : Backend → Bool) (next : Nat) :
    Prop where
  found : (∃ backend ∈ entry.upstream.backends, health backend = true) →
    ∃ backend ∈ entry.upstream.backends, health backend = true ∧
      entry.select pingora health next = some backend
  badGateway : ∀ ctx, ctx.routeEntry = some entry →
    SimpleProxy.upstreamPeer pingora health next ctx = .error ⟨.httpStatus 502, .upstream⟩ →
      ∀ backend ∈ entry.upstream.backends, health backend = false

/-- One of the 32 backends that follow the counter is healthy. -/
def NearHealthy (entry : RouteEntry) (health : Backend → Bool) (next : Nat) : Prop :=
  ∃ i < 32, ∃ backend,
    entry.upstream.backends[(next + i) % entry.upstream.backends.length]? = some backend ∧
      health backend = true

variable {pingora : Pingora} {entry : RouteEntry} {health : Backend → Bool} {next : Nat}

/-- The selection is the first healthy backend within the budget. -/
theorem select_eq_find? (walks : pingora.WalksInTurn) :
    entry.select pingora health next =
      (RoundRobin.window entry.upstream.backends next 32).find? health := by
  unfold select
  rw [walks, RoundRobin.walk_eq_find?]
  rfl

theorem nearHealthy_iff : entry.NearHealthy health next ↔
    ∃ backend ∈ RoundRobin.window entry.upstream.backends next 32, health backend = true := by
  constructor
  · rintro ⟨i, inBudget, backend, position, healthy⟩
    exact ⟨backend, RoundRobin.mem_window.mpr ⟨i, inBudget, position⟩, healthy⟩
  · rintro ⟨backend, reached, healthy⟩
    obtain ⟨i, inBudget, position⟩ := RoundRobin.mem_window.mp reached
    exact ⟨i, inBudget, backend, position, healthy⟩

/-- A selection is made exactly when a healthy backend is near. -/
theorem select_eq_none_iff (walks : pingora.WalksInTurn) :
    entry.select pingora health next = none ↔ ¬entry.NearHealthy health next := by
  rw [select_eq_find? walks, nearHealthy_iff]
  simp

/-- `upstream_peer` answers 502 exactly when nothing is selected. -/
theorem upstreamPeer_badGateway_iff {ctx : ProxyContext} (routed : ctx.routeEntry = some entry) :
    SimpleProxy.upstreamPeer pingora health next ctx = .error ⟨.httpStatus 502, .upstream⟩ ↔
      entry.select pingora health next = none := by
  unfold SimpleProxy.upstreamPeer
  rw [routed]
  cases selected : entry.select pingora health next <;> simp [selected]

/-- With the given health and counter, all is well exactly when a healthy backend is
near, or there is none at all. -/
theorem finds_iff (walks : pingora.WalksInTurn) : entry.Finds pingora health next ↔
    ((∃ backend ∈ entry.upstream.backends, health backend = true) →
      entry.NearHealthy health next) := by
  constructor
  · intro finds some_healthy
    obtain ⟨backend, -, -, selected⟩ := finds.found some_healthy
    by_contra far
    rw [(select_eq_none_iff walks).mpr far] at selected
    cases selected
  · intro near
    refine ⟨fun some_healthy => ?_, fun ctx routed answer backend held => ?_⟩
    · cases selected : entry.select pingora health next with
      | none => exact absurd (near some_healthy) ((select_eq_none_iff walks).mp selected)
      | some backend =>
        have first := selected
        rw [select_eq_find? walks] at first
        have reached := List.mem_of_find?_eq_some first
        exact ⟨backend, RoundRobin.mem_ring_of_mem_window reached, List.find?_some first, rfl⟩
    · -- an answer of 502 contradicts a healthy backend
      have far := (select_eq_none_iff walks).mp ((upstreamPeer_badGateway_iff routed).mp answer)
      cases healthy : health backend with
      | false => rfl
      | true => exact absurd (near ⟨backend, held, healthy⟩) far

/-- A healthy backend is found whenever one of the 32 backends that follow the counter
is healthy, and only then; and in every case exactly when the group has at most 32
backends. -/
theorem select_finds_iff (walks : pingora.WalksInTurn)
    (distinct : entry.upstream.backends.Nodup) :
    (∀ health next, entry.Finds pingora health next ↔
      ((∃ backend ∈ entry.upstream.backends, health backend = true) →
        entry.NearHealthy health next)) ∧
    ((∀ health next, entry.Finds pingora health next) ↔ entry.upstream.backends.length ≤ 32) := by
  refine ⟨fun _ _ => finds_iff walks, ?_⟩
  rw [← RoundRobin.window_covers_iff distinct 32]
  constructor
  · -- let `backend` be the only healthy one
    intro finds next backend held
    obtain ⟨near, reached, healthy⟩ := nearHealthy_iff.mp <|
      (finds_iff walks).mp (finds (fun b => b = backend) next) ⟨backend, held, by simp⟩
    rwa [of_decide_eq_true healthy] at reached
  · rintro covers health next
    refine (finds_iff walks).mpr ?_
    rintro ⟨backend, held, healthy⟩
    exact nearHealthy_iff.mpr ⟨backend, covers next backend held, healthy⟩

/-- A group of the given addresses. -/
def ofAddrs (addrs : List String) : RouteEntry :=
  ⟨⟨addrs.map Backend.mk, some .tcp, some healthCheckInterval⟩, false⟩

theorem select_finds_iff_two :
    (∀ health next, (ofAddrs ["10.0.0.1:80", "10.0.0.2:80"]).Finds .roundRobin health next ↔
      ((∃ backend ∈ (ofAddrs ["10.0.0.1:80", "10.0.0.2:80"]).upstream.backends,
          health backend = true) →
        (ofAddrs ["10.0.0.1:80", "10.0.0.2:80"]).NearHealthy health next)) ∧
    ((∀ health next, (ofAddrs ["10.0.0.1:80", "10.0.0.2:80"]).Finds .roundRobin health next) ↔
      (ofAddrs ["10.0.0.1:80", "10.0.0.2:80"]).upstream.backends.length ≤ 32) :=
  select_finds_iff Pingora.roundRobin_walksInTurn (by decide)

/-- Backends at the addresses `10.0.0.1:80`, `10.0.0.2:80` and so on. -/
def numbered (n : Nat) : RouteEntry :=
  ofAddrs ((List.range n).map fun i => "10.0.0." ++ toString (i + 1) ++ ":80")

/-- The last of 33 backends is the only healthy one and the counter is at the first:
the walk ends before it gets there. -/
theorem select_misses :
    ¬∀ (entry : RouteEntry) (health : Backend → Bool) (next : Nat),
      entry.upstream.backends ≠ [] → entry.upstream.backends.Nodup →
        entry.Finds .roundRobin health next := by
  intro finds
  have atFirst := finds (numbered 33) (fun b => b.addr = "10.0.0.33:80") 0 (by decide +kernel)
    (by decide +kernel)
  obtain ⟨backend, -, -, selected⟩ :=
    atFirst.found ⟨⟨"10.0.0.33:80"⟩, by decide +kernel, by decide⟩
  have missed : (numbered 33).select .roundRobin (fun b => b.addr = "10.0.0.33:80") 0 = none := by
    decide +kernel
  rw [missed] at selected
  cases selected

end RouteEntry

end SimplyProxy
