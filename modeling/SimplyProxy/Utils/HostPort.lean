import Mathlib.Data.List.TakeWhile
import SimplyProxy.Platform.Http

/-!
# Host and port of a request

`get_host_port` and `split_host_port` of `utils.rs`. The host comes from the Host
header when there is one and from the URI otherwise; the two are read by
different parsers.

1. `splitHostPort_plain`: on an authority that is not an IPv6 literal the header
   is cut where the URI is.
2. `splitHostPort_ipv6`: on an IPv6 literal it never is.
-/

namespace SimplyProxy

/-- `str::parse::<u16>`: an optional plus sign and decimal digits, in range. -/
def parseU16 (s : List Char) : Option UInt16 :=
  let digits := match s with
    | '+' :: rest => rest
    | s => s
  if digits ≠ [] ∧ digits.all Char.isDigit ∧ Nat.ofDigitChars 10 digits 0 < 2 ^ 16 then
    some (.ofNat (Nat.ofDigitChars 10 digits 0))
  else none

def splitHostPort (host : String) (defaultPort : UInt16) : String × UInt16 :=
  match host.toList.splitOn ':' with
  | [] => ("", defaultPort)
  | [host] => (String.ofList host, defaultPort)
  | host :: port :: _ => (String.ofList host, (parseU16 port).getD defaultPort)

def defaultPort (uri : Uri) : UInt16 := if uri.scheme = some "https" then 433 else 80

def getHostPort (host : Option HeaderValue) (uri : Uri) : String × UInt16 :=
  match host with
  | some h => splitHostPort (h.toStr.getD "") (defaultPort uri)
  | none => (uri.host.getD "", uri.portU16.getD (defaultPort uri))

example : getHostPort none ⟨some "http", some "localhost", some 8080, "/"⟩ =
    ("localhost", 8080) := by
  decide

/-! ## Cutting an authority -/

theorem parseU16_port (port : Authority.Port) : parseU16 port.digits =
    if port.digits ≠ [] ∧ port.value < 2 ^ 16 then some (.ofNat port.value) else none := by
  have unsigned : (match port.digits with
      | '+' :: rest => rest
      | s => s) = port.digits := by
    split
    · next rest equal =>
      have := List.all_eq_true.mp port.valid '+' (by simp [equal])
      exact absurd this (by decide)
    · rfl
  have digits : (port.digits ≠ [] ∧ port.digits.all Char.isDigit ∧
      Nat.ofDigitChars 10 port.digits 0 < 2 ^ 16) ↔ port.digits ≠ [] ∧ port.value < 2 ^ 16 := by
    simp [port.valid, Authority.Port.value]
  unfold parseU16
  rw [unsigned]
  exact if_congr digits rfl rfl

/-- A host without a colon is cut from the port behind it. -/
theorem splitHostPort_plain {a : Authority} (h : a.host.isIpv6 = false) (port : UInt16) :
    splitHostPort (String.ofList a.text) port =
      (String.ofList a.hostText, a.portU16.getD port) := by
  have uncolon : ':' ∉ a.hostText := fun mem => (Authority.plain_of_hostText h ':' mem).2 rfl
  unfold splitHostPort Authority.text Authority.portU16
  rw [String.toList_ofList]
  cases hport : a.port with
  | none =>
    simp [List.splitOn_eq_singleton uncolon]
  | some p =>
    have plainPort : ':' ∉ p.digits := fun mem => (Authority.plain_of_port p ':' mem).2 rfl
    simp only
    rw [List.splitOn_append_cons_self_of_not_mem uncolon, List.splitOn_eq_singleton plainPort]
    simp only [parseU16_port, Option.bind_some]

/-- The first part goes up to the first separator. -/
theorem splitOn_takeWhile (x : Char) (s : List Char) :
    ∃ rest, s.splitOn x = s.takeWhile (· ≠ x) :: rest := by
  induction s with
  | nil => exact ⟨[], by simp⟩
  | cons c s ih =>
    obtain ⟨rest, equal⟩ := ih
    rw [List.splitOn_cons_eq_if_modifyHead, equal]
    by_cases h : c = x
    · exact ⟨s.takeWhile (· ≠ x) :: rest, by simp [h]⟩
    · exact ⟨rest, by simp [h]⟩

/-- What the header is cut to never has a colon. -/
theorem splitHostPort_colon (host : String) (port : UInt16) :
    ':' ∉ (splitHostPort host port).1.toList := by
  obtain ⟨rest, equal⟩ := splitOn_takeWhile ':' host.toList
  have clean : ':' ∉ host.toList.takeWhile (· ≠ ':') := fun mem => by
    simpa using List.mem_takeWhile_imp mem
  unfold splitHostPort
  rw [equal]
  cases rest <;> simpa using clean

/-- An IPv6 literal is cut inside its brackets. -/
theorem splitHostPort_ipv6 {a : Authority} (h : a.host.isIpv6 = true) (port : UInt16) :
    (splitHostPort (String.ofList a.text) port).1 ≠ String.ofList a.hostText := by
  intro equal
  refine splitHostPort_colon (String.ofList a.text) port ?_
  rw [equal, String.toList_ofList]
  exact Authority.colon_mem_hostText_iff.mpr h

theorem getHostPort_header {a : Authority} (uri : Uri) :
    getHostPort (some (.ofText (String.ofList a.text))) uri =
      splitHostPort (String.ofList a.text) (defaultPort uri) := by
  simp [getHostPort, HeaderValue.toStr_ofText (Authority.text_visible a)]

theorem getHostPort_uri {a : Authority} {uri : Uri} (carries : uri.Carries a) :
    getHostPort none uri = (String.ofList a.hostText, a.portU16.getD (defaultPort uri)) := by
  simp [getHostPort, carries.host, carries.portU16]

end SimplyProxy
