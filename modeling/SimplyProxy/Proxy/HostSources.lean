import SimplyProxy.Proxy.SimpleProxy

/-!
# The two sources of the host

An HTTP/1.1 request names its authority in the Host header, an HTTP/2 request in its
URI. `get_host_port` cuts the header at its first colons and leaves the URI to
the `http` crate.

`sources_agree_iff`: both give the same host and port, and the same route, for all
authorities but those with an IPv6 literal.
-/

namespace SimplyProxy
namespace SimpleProxy

/-- The same authority in the header and in a URI of the same scheme gives the same
host and port. -/
def SourcesAgree (a : Authority) : Prop :=
  ∀ uri uri' : Uri, uri.scheme = uri'.scheme → uri'.Carries a →
    getHostPort (some (.ofText (String.ofList a.text))) uri = getHostPort none uri'

/-- Two requests for the authority, one with the header and one without, get the same
route. -/
def RoutedAlike (a : Authority) : Prop :=
  ∀ (self : SimpleProxy) (session session' : Session) (ctx ctx' : ProxyContext),
    session.getHeader "host" = some (.ofText (String.ofList a.text)) →
    session'.getHeader "host" = none → session'.reqHeader.uri.Carries a →
    session.reqHeader.uri.scheme = session'.reqHeader.uri.scheme →
    (self.route session ctx).routeEntry = (self.route session' ctx').routeEntry

/-- Hosts and ports that agree give the same route. -/
theorem SourcesAgree.routedAlike {a : Authority} (h : SourcesAgree a) : RoutedAlike a := by
  intro self session session' ctx ctx' header absent carries scheme
  have same := h session.reqHeader.uri session'.reqHeader.uri scheme carries
  simp only [route, header, absent, same]

/-- Without an IPv6 literal the header is cut where the URI is. -/
theorem sourcesAgree_of_plain {a : Authority} (h : a.host.isIpv6 = false) : SourcesAgree a := by
  intro uri uri' scheme carries
  have port : defaultPort uri = defaultPort uri' := by simp only [defaultPort, scheme]
  rw [getHostPort_header, getHostPort_uri carries, splitHostPort_plain h, port]

/-- The header and the URI agree on an authority, and on its route, if and only if
its host is not an IPv6 literal. -/
theorem sources_agree_iff (a : Authority) :
    (SourcesAgree a ∧ RoutedAlike a) ↔ a.host.isIpv6 = false := by
  constructor
  · rintro ⟨agree, -⟩
    by_contra literal
    have literal : a.host.isIpv6 = true := by simpa using literal
    -- the header is cut at a colon, and the literal in the URI has one
    let uri : Uri := ⟨none, some (String.ofList a.hostText), a.portU16, "/"⟩
    have carries : uri.Carries a := ⟨rfl, rfl⟩
    have same := agree uri uri rfl carries
    rw [getHostPort_header, getHostPort_uri carries] at same
    exact splitHostPort_ipv6 literal _ (congrArg Prod.fst same)
  · intro plain
    have agree := sourcesAgree_of_plain plain
    exact ⟨agree, agree.routedAlike⟩

/-- The authority `[::1]:8080`. -/
def loopback : Authority where
  host := .ipv6 (.compressed [] ⟨[⟨['1'], by decide⟩], none⟩ (by decide))
  port := some ⟨['8', '0', '8', '0'], by decide⟩

/-- The header gives the host `[` and port 80, the URI `[::1]` and port 8080. -/
theorem sources_differ_loopback : ¬∀ a : Authority, SourcesAgree a ∧ RoutedAlike a := by
  intro agree
  let uri : Uri := ⟨some "http", some "[::1]", some 8080, "/"⟩
  have carries : uri.Carries loopback := ⟨by decide, by decide⟩
  have same := (agree loopback).1 uri uri rfl carries
  have header : getHostPort (some (.ofText (String.ofList loopback.text))) uri = ("[", 80) := by
    decide
  rw [header] at same
  exact absurd same (by decide)

end SimpleProxy

end SimplyProxy
