import Mathlib.Data.List.Perm.Basic
import SimplyProxy.Conf.Resolved

/-!
# The order of the sections

The server blocks, the upstream groups and the names in a block may be written in any
order. Two blocks that list one name are an error, whichever comes first. Two upstream
groups of one name are not: the later one replaces the earlier one.

1. `order_irrelevant_iff`: all orders resolve alike exactly when the configuration is
   not accepted, or each block that lists a name leaves no choice between groups with
   different addresses.
2. `order_matters`: two groups of one name, in both orders.
-/

namespace SimplyProxy
namespace ProxyConfigResolved

/-! ## Reordering -/

/-- The same block with its names in another order. -/
structure SameBlock (server server' : ServerConfig) : Prop where
  names : server.serverName.Perm server'.serverName
  upstream : server.upstream = server'.upstream
  tls : server.tls = server'.tls

/-- The same configuration with its blocks, its groups and the names in its blocks in
another order. -/
structure Reordered (raw raw' : SimpleProxyConfig) : Prop where
  global : raw.global = raw'.global
  servers : ∃ blocks, raw.servers.Perm blocks ∧ List.Forall₂ SameBlock blocks raw'.servers
  upstreams : raw.upstreams.Perm raw'.upstreams

/-- Both configurations are accepted or none is, and they resolve to the same. -/
structure ResolveAlike (exist : FileSystem) (raw raw' : SimpleProxyConfig) : Prop where
  accepts : (∃ config, tryFrom exist raw = .ok config) ↔ ∃ config, tryFrom exist raw' = .ok config
  same : ∀ config config', tryFrom exist raw = .ok config → tryFrom exist raw' = .ok config' →
    config.global = config'.global ∧ ∀ name, config.servers.get name = config'.servers.get name

variable {exist : FileSystem} {raw raw' : SimpleProxyConfig}

theorem SameBlock.symm {server server' : ServerConfig} (h : SameBlock server server') :
    SameBlock server' server :=
  ⟨h.names.symm, h.upstream.symm, h.tls.symm⟩

theorem Reordered.symm (h : Reordered raw raw') : Reordered raw' raw := by
  obtain ⟨blocks, perm, same⟩ := h.servers
  have back : Relation.Comp (List.Forall₂ SameBlock) List.Perm raw'.servers raw.servers :=
    ⟨blocks, (same.imp fun _ _ => SameBlock.symm).flip, perm.symm⟩
  rw [List.forall₂_comp_perm_eq_perm_comp_forall₂] at back
  exact ⟨h.global.symm, back, h.upstreams.symm⟩

theorem exists_sameBlock {blocks blocks' : List ServerConfig}
    (same : List.Forall₂ SameBlock blocks blocks') :
    ∀ server ∈ blocks, ∃ server' ∈ blocks', SameBlock server server' := by
  induction same with
  | nil => simp
  | @cons server server' rest rest' first _ ih =>
    refine List.forall_mem_cons.mpr ⟨⟨server', by simp, first⟩, fun s mem => ?_⟩
    obtain ⟨s', mem', block⟩ := ih s mem
    exact ⟨s', List.mem_cons_of_mem _ mem', block⟩

/-- Every block is found again. -/
theorem Reordered.exists_block (h : Reordered raw raw') {server : ServerConfig}
    (mem : server ∈ raw.servers) : ∃ server' ∈ raw'.servers, SameBlock server server' := by
  obtain ⟨blocks, perm, same⟩ := h.servers
  exact exists_sameBlock same server (perm.mem_iff.mp mem)

theorem names_perm_of_sameBlock {blocks blocks' : List ServerConfig}
    (same : List.Forall₂ SameBlock blocks blocks') :
    (blocks.flatMap ServerConfig.serverName).Perm (blocks'.flatMap ServerConfig.serverName) := by
  induction same with
  | nil => exact .refl _
  | cons first _ ih => exact first.names.append ih

/-- All listed names are found again, as often as before. -/
theorem Reordered.names_perm (h : Reordered raw raw') :
    (raw.servers.flatMap ServerConfig.serverName).Perm
      (raw'.servers.flatMap ServerConfig.serverName) := by
  obtain ⟨blocks, perm, same⟩ := h.servers
  exact (perm.flatMap_right _).trans (names_perm_of_sameBlock same)

/-- Acceptance does not depend on the order. -/
theorem Reordered.wellFormed (h : Reordered raw raw') (wellFormed : raw.WellFormed exist) :
    raw'.WellFormed exist := by
  refine ⟨?_, fun server' mem' => ?_, ?_⟩
  · rw [← h.global]
    exact wellFormed.files
  · obtain ⟨server, mem, block⟩ := h.symm.exists_block mem'
    obtain ⟨group, held, named⟩ := wellFormed.upstreams server mem
    exact ⟨group, h.upstreams.mem_iff.mp held, named.trans block.upstream.symm⟩
  · exact h.names_perm.nodup_iff.mp wellFormed.distinct

theorem Reordered.accepts (h : Reordered raw raw') :
    (∃ config, tryFrom exist raw = .ok config) ↔ ∃ config, tryFrom exist raw' = .ok config := by
  constructor
  · rintro ⟨_, ok⟩
    exact tryFrom_of_wellFormed (h.wellFormed (tryFrom_wellFormed ok))
  · rintro ⟨_, ok⟩
    exact tryFrom_of_wellFormed (h.symm.wellFormed (tryFrom_wellFormed ok))

/-! ## Groups of one name -/

/-- All groups with the name that a block gives have the same addresses, unless the
block lists no name. -/
def Unambiguous (raw : SimpleProxyConfig) : Prop :=
  ∀ server ∈ raw.servers, server.serverName ≠ [] → ∀ group ∈ raw.upstreams,
    ∀ group' ∈ raw.upstreams, group.name = server.upstream → group'.name = server.upstream →
      group.servers = group'.servers

/-- Any group can be put last. -/
theorem exists_perm_lastNamed {upstreams : List UpstreamConfig} {group : UpstreamConfig}
    (mem : group ∈ upstreams) :
    ∃ upstreams', upstreams.Perm upstreams' ∧ LastNamed upstreams' group.name group := by
  obtain ⟨before, after, rfl⟩ := List.append_of_mem mem
  refine ⟨before ++ (after ++ [group]), ?_, before ++ after, [], by simp, rfl, by simp⟩
  exact (List.perm_append_singleton group after).symm.append_left before

/-- A name is resolved alike in both orders when there is no choice of groups. -/
theorem Reordered.get_of_get (h : Reordered raw raw') (clear : Unambiguous raw)
    {config config' : ProxyConfigResolved} (ok : tryFrom exist raw = .ok config)
    (ok' : tryFrom exist raw' = .ok config') {name : String} {resolved : ServerConfigResolved}
    (found : config.servers.get name = some resolved) :
    config'.servers.get name = some resolved := by
  obtain ⟨server, mem, listed, group, last, rfl⟩ := (tryFrom_servers_get ok).mp found
  obtain ⟨server', mem', block⟩ := h.exists_block mem
  obtain ⟨group', last', found'⟩ := (tryFrom_resolves ok').blocks server' mem' name
    (block.names.mem_iff.mp listed)
  obtain ⟨held, named⟩ := mem_of_lastNamed last
  obtain ⟨held', named'⟩ := mem_of_lastNamed last'
  have sameServers : group.servers = group'.servers :=
    clear server mem (List.ne_nil_of_mem listed) group held group'
      (h.upstreams.mem_iff.mpr held') named (named'.trans block.upstream.symm)
  rw [found', block.tls, sameServers]

theorem Reordered.unambiguous (h : Reordered raw raw') (clear : Unambiguous raw) :
    Unambiguous raw' := by
  intro server' mem' names' group held group' held' named named'
  obtain ⟨server, mem, block⟩ := h.symm.exists_block mem'
  have names : server.serverName ≠ [] := fun empty =>
    names' (List.Perm.eq_nil (empty ▸ block.names))
  exact clear server mem names group (h.upstreams.mem_iff.mpr held) group'
    (h.upstreams.mem_iff.mpr held') (named.trans block.upstream) (named'.trans block.upstream)

theorem Reordered.resolveAlike (h : Reordered raw raw')
    (clear : raw.WellFormed exist → Unambiguous raw) : ResolveAlike exist raw raw' := by
  refine ⟨h.accepts, fun config config' ok ok' => ⟨?_, fun name => ?_⟩⟩
  · have global := (tryFrom_eq_ok.mp ok).1
    have global' := (tryFrom_eq_ok.mp ok').1
    rw [h.global, global'] at global
    exact (Except.ok.inj global).symm
  · have clear := clear (tryFrom_wellFormed ok)
    apply Option.ext
    intro resolved
    exact ⟨h.get_of_get clear ok ok', h.symm.get_of_get (h.unambiguous clear) ok' ok⟩

/-- With `group` put last, the names of a block that names it get its addresses. -/
theorem exists_reordered_last (wellFormed : raw.WellFormed exist) {group : UpstreamConfig}
    (held : group ∈ raw.upstreams) :
    ∃ raw' config', Reordered raw raw' ∧ tryFrom exist raw' = .ok config' ∧
      ∀ server ∈ raw.servers, server.upstream = group.name → ∀ name ∈ server.serverName,
        config'.servers.get name = some ⟨server.tls.getD false, ⟨group.servers⟩⟩ := by
  obtain ⟨upstreams', perm, last⟩ := exists_perm_lastNamed held
  have reordered : Reordered raw { raw with upstreams := upstreams' } :=
    ⟨rfl, ⟨_, .refl _, List.forall₂_same.mpr fun _ _ => ⟨.refl _, rfl, rfl⟩⟩, perm⟩
  obtain ⟨config', ok'⟩ := tryFrom_of_wellFormed (reordered.wellFormed wellFormed)
  refine ⟨_, config', reordered, ok', fun server mem named name listed => ?_⟩
  exact (tryFrom_servers_get ok').mpr ⟨server, mem, listed, group, named ▸ last, rfl⟩

/-- A configuration resolves alike in all orders if and only if it is not accepted in
any of them or no block has a choice between groups with different addresses. -/
theorem order_irrelevant_iff (exist : FileSystem) (raw : SimpleProxyConfig) :
    (∀ raw', Reordered raw raw' → ResolveAlike exist raw raw') ↔
      (raw.WellFormed exist → Unambiguous raw) := by
  refine ⟨fun alike wellFormed => ?_, fun clear raw' reordered => reordered.resolveAlike clear⟩
  intro server mem names group held group' held' named named'
  obtain ⟨name, listed⟩ := List.exists_mem_of_ne_nil _ names
  obtain ⟨config, ok⟩ := tryFrom_of_wellFormed wellFormed
  -- put one group last, then the other, and compare both with the order as it stands
  obtain ⟨raw₁, config₁, reordered₁, ok₁, found₁⟩ := exists_reordered_last wellFormed held
  obtain ⟨raw₂, config₂, reordered₂, ok₂, found₂⟩ := exists_reordered_last wellFormed held'
  have same₁ := ((alike raw₁ reordered₁).same config config₁ ok ok₁).2 name
  have same₂ := ((alike raw₂ reordered₂).same config config₂ ok ok₂).2 name
  rw [found₁ server mem named.symm name listed] at same₁
  rw [found₂ server mem named'.symm name listed, same₁] at same₂
  simpa using same₂

/-- One block and two groups with the name that it gives. -/
def shadowed (first second : UpstreamConfig) : SimpleProxyConfig :=
  ⟨⟨8080, none, none⟩, [⟨["a.com"], "web", none⟩], [first, second]⟩

/-- The group that comes last is used. -/
theorem order_matters :
    ¬∀ (exist : FileSystem) (raw raw' : SimpleProxyConfig), Reordered raw raw' →
      ResolveAlike exist raw raw' := by
  intro alike
  have reordered : Reordered
      (shadowed ⟨"web", ["10.0.0.1:80"]⟩ ⟨"web", ["10.0.0.2:80"]⟩)
      (shadowed ⟨"web", ["10.0.0.2:80"]⟩ ⟨"web", ["10.0.0.1:80"]⟩) :=
    ⟨rfl, ⟨_, .refl _, .cons ⟨.refl _, rfl, rfl⟩ .nil⟩, .swap _ _ _⟩
  have same := ((alike (fun _ => false) _ _ reordered).same _ _ rfl rfl).2 "a.com"
  exact absurd same (by decide)

end ProxyConfigResolved

end SimplyProxy
