import SimplyProxy.Utils.HostPort

/-!
# The effective port

The port of a request is the one that is written behind the host, and the default of the
scheme when none is written. The design document gives 443 as the default for `https`
and 80 for all others. A port is a number in decimal digits, at most 65535.

1. `effectivePort_iff`: `get_host_port` returns this port, and the name in front of it,
   exactly when a port is written or the default is not that of `https`, as long as the
   header is visible ASCII and nothing behind the name is only read as a number: one with
   a plus sign, or with more behind another colon.
2. `https_default`: a request for `https` without a port gets port 433.
-/

namespace SimplyProxy

/-! ## What a request says -/

/-- The number that the text writes. -/
def writtenPort (text : List Char) : Option UInt16 :=
  if text ≠ [] ∧ text.all Char.isDigit ∧ Nat.ofDigitChars 10 text 0 ≤ 65535 then
    some (.ofNat (Nat.ofDigitChars 10 text 0))
  else none

/-- The default of the design document. -/
def documentedPort (uri : Uri) : UInt16 := if uri.scheme = some "https" then 443 else 80

/-- The written port, and the documented default when none is written. -/
def effectivePort (uri : Uri) (text : Option (List Char)) : UInt16 :=
  (text.bind writtenPort).getD (documentedPort uri)

/-- A Host header: a name, and possibly a colon and a text. -/
def hostHeader (name : List UInt8) (text : Option (List UInt8)) : HeaderValue :=
  ⟨name ++ match text with
    | none => []
    | some text => 58 :: text⟩

/-- The port accessor parses the text behind the colon of the authority. The text need not
be a number: a URI is accepted with any. -/
def Uri.Reads (uri : Uri) (text : Option (List Char)) : Prop :=
  uri.portU16 = text.bind parseU16

/-- The Host header is read as it should be. -/
structure HeaderRead (uri : Uri) (name : List UInt8) (text : Option (List UInt8)) : Prop where
  host : (getHostPort (some (hostHeader name text)) uri).1 =
    String.ofList (HeaderValue.latin1 name)
  port : (getHostPort (some (hostHeader name text)) uri).2 =
    effectivePort uri (text.map HeaderValue.latin1)

/-! ## What the code reads -/

/-- A plus sign is skipped. -/
def unsigned (text : List Char) : List Char :=
  match text with
  | '+' :: rest => rest
  | text => text

def signedPort (text : List Char) : Option UInt16 := writtenPort (unsigned text)

/-- The number that is read behind the name of a header: up to the next colon. -/
def foundPort (text : List Char) : Option UInt16 := signedPort (text.takeWhile (· ≠ ':'))

theorem parseU16_eq (text : List Char) : parseU16 text = signedPort text :=
  if_congr (and_congr_right' (and_congr_right' Nat.lt_succ_iff)) rfl rfl

theorem isDigit_of_written {text : List Char} {port : UInt16}
    (written : writtenPort text = some port) : ∀ c ∈ text, c.isDigit = true := by
  unfold writtenPort at written
  split at written
  · next valid => exact List.all_eq_true.mp valid.2.1
  · cases written

/-- There is no sign in a written port. -/
theorem signedPort_of_written {text : List Char} {port : UInt16}
    (written : writtenPort text = some port) : signedPort text = some port := by
  have noSign : unsigned text = text := by
    unfold unsigned
    split
    · exact absurd (isDigit_of_written written '+' (by simp)) (by decide)
    · rfl
  rw [signedPort, noSign, written]

/-- There is no colon in a written port. -/
theorem foundPort_of_written {text : List Char} {port : UInt16}
    (written : writtenPort text = some port) : foundPort text = some port := by
  have whole : text.takeWhile (· ≠ ':') = text := by
    refine List.takeWhile_eq_self_iff.mpr fun c mem => ?_
    simpa using (Authority.plain_of_isDigit (isDigit_of_written written c mem)).2
  rw [foundPort, whole, signedPort_of_written written]

theorem splitHostPort_name {name : List Char} (noColon : ':' ∉ name) (port : UInt16) :
    splitHostPort (String.ofList name) port = (String.ofList name, port) := by
  unfold splitHostPort
  rw [String.toList_ofList, List.splitOn_eq_singleton noColon]

theorem splitHostPort_text {name text : List Char} (noColon : ':' ∉ name) (port : UInt16) :
    splitHostPort (String.ofList (name ++ ':' :: text)) port =
      (String.ofList name, (foundPort text).getD port) := by
  obtain ⟨rest, equal⟩ := splitOn_takeWhile ':' text
  unfold splitHostPort
  rw [String.toList_ofList, List.splitOn_append_cons_self_of_not_mem noColon, equal]
  simp only [parseU16_eq, foundPort]

/-- An authority of the grammar has a text of digits. -/
theorem Uri.Carries.reads {uri : Uri} {a : Authority} (carries : uri.Carries a) :
    uri.Reads (a.port.map Authority.Port.digits) := by
  rw [Uri.Reads, carries.portU16, Authority.portU16, Option.bind_map]
  congr 1
  funext port
  exact (parseU16_port port).symm

theorem defaultPort_eq_iff (uri : Uri) :
    defaultPort uri = documentedPort uri ↔ uri.scheme ≠ some "https" := by
  unfold defaultPort documentedPort
  by_cases https : uri.scheme = some "https" <;> simp [https]

/-- A header of visible characters: the name is kept, and the port is the one found. -/
theorem getHostPort_visible (uri : Uri) {name : List UInt8} {text : Option (List UInt8)}
    (noColon : 58 ∉ name)
    (visible : (hostHeader name text).bytes.all HeaderValue.visibleAscii = true) :
    getHostPort (some (hostHeader name text)) uri = (String.ofList (HeaderValue.latin1 name),
      ((text.map HeaderValue.latin1).bind foundPort).getD (defaultPort uri)) := by
  have noColon : ':' ∉ HeaderValue.latin1 name := mt (HeaderValue.mem_latin1 58).mp noColon
  show splitHostPort ((hostHeader name text).toStr.getD "") (defaultPort uri) = _
  rw [HeaderValue.toStr_eq_ite, if_pos visible]
  cases text with
  | none =>
    have bytes : (hostHeader name none).bytes = name := List.append_nil name
    rw [bytes]
    exact splitHostPort_name noColon _
  | some text =>
    have bytes : HeaderValue.latin1 (hostHeader name (some text)).bytes =
        HeaderValue.latin1 name ++ ':' :: HeaderValue.latin1 text := List.map_append
    rw [bytes]
    exact splitHostPort_text noColon _

/-- Of any other header nothing is read. -/
theorem getHostPort_invisible (uri : Uri) {value : HeaderValue}
    (invisible : ¬value.bytes.all HeaderValue.visibleAscii = true) :
    getHostPort (some value) uri = ("", defaultPort uri) := by
  show splitHostPort (value.toStr.getD "") (defaultPort uri) = _
  rw [HeaderValue.toStr_eq_ite, if_neg invisible]
  exact splitHostPort_name List.not_mem_nil _

/-- A text with a byte that is not visible ASCII writes no port. -/
theorem visible_of_written {text : List UInt8} {port : UInt16}
    (written : writtenPort (HeaderValue.latin1 text) = some port) :
    text.all HeaderValue.visibleAscii = true := by
  refine List.all_eq_true.mpr fun b mem => ?_
  have digit := isDigit_of_written written _ ((HeaderValue.mem_latin1 b).mpr mem)
  have visible := (Authority.plain_of_isDigit digit).1
  rw [Authority.visible, HeaderValue.toNat_ofNat_toNat] at visible
  have low : 32 ≤ b := UInt8.le_iff_toNat_le.mpr (Nat.le_of_succ_le visible.1)
  have high : b < 127 := UInt8.lt_iff_toNat_lt.mpr visible.2
  simp [HeaderValue.visibleAscii, low, high]

/-! ## When the port is the effective one -/

/-- The text writes a port, or what is found in it is the documented default, or nothing is
found in it and the scheme is not `https`. -/
def PortMet (uri : Uri) (text : Option (List Char)) (found : Option UInt16) : Prop :=
  (text.bind writtenPort).isSome = true ∨ found = some (documentedPort uri) ∨
    (found = none ∧ uri.scheme ≠ some "https")

/-- A header that is not of visible characters has no name, and the scheme is not `https`. -/
def HeaderMet (uri : Uri) (name : List UInt8) (text : Option (List UInt8)) : Prop :=
  if (hostHeader name text).bytes.all HeaderValue.visibleAscii = true then
    PortMet uri (text.map HeaderValue.latin1) ((text.map HeaderValue.latin1).bind foundPort)
  else name = [] ∧ uri.scheme ≠ some "https"

variable {uri : Uri} {name : List UInt8} {text : Option (List UInt8)}

/-- What is found, or else the default of the code, against what is written, or else the
documented default. -/
theorem getD_found_eq_iff {find : List Char → Option UInt16}
    (finds : ∀ {text port}, writtenPort text = some port → find text = some port) (uri : Uri)
    (text : Option (List Char)) :
    (text.bind find).getD (defaultPort uri) = effectivePort uri text ↔
      PortMet uri text (text.bind find) := by
  unfold effectivePort PortMet
  cases written : text.bind writtenPort with
  | some port =>
    obtain ⟨text, rfl, written⟩ := Option.bind_eq_some_iff.mp written
    simp [finds written]
  | none =>
    cases text.bind find with
    | some port => simp
    | none => simpa using defaultPort_eq_iff uri

/-- Of a header without a name that is not visible ASCII, the text writes no port. -/
theorem effectivePort_invisible
    (invisible : ¬(hostHeader name text).bytes.all HeaderValue.visibleAscii = true)
    (empty : name = []) : effectivePort uri (text.map HeaderValue.latin1) = documentedPort uri := by
  subst empty
  unfold effectivePort
  cases text with
  | none => rfl
  | some text =>
    cases written : writtenPort (HeaderValue.latin1 text) with
    | none => simp [written]
    | some port =>
      have visible := visible_of_written written
      exact absurd (by simpa [hostHeader, HeaderValue.visibleAscii] using visible) invisible

theorem headerRead_iff (noColon : 58 ∉ name) :
    HeaderRead uri name text ↔ HeaderMet uri name text := by
  unfold HeaderMet
  split
  · next visible =>
    have result := getHostPort_visible uri noColon visible
    rw [← getD_found_eq_iff foundPort_of_written]
    constructor
    · intro read
      have port := read.port
      rwa [result] at port
    · exact fun port => ⟨by rw [result], by rw [result, port]⟩
  · next invisible =>
    have result := getHostPort_invisible uri invisible
    have nameless : String.ofList (HeaderValue.latin1 name) = "" ↔ name = [] := by
      rw [String.ofList_eq_empty_iff]
      exact List.map_eq_nil_iff
    constructor
    · intro read
      have host := read.host
      have port := read.port
      rw [result] at host port
      have empty := nameless.mp host.symm
      rw [effectivePort_invisible invisible empty] at port
      exact ⟨empty, (defaultPort_eq_iff uri).mp port⟩
    · rintro ⟨empty, scheme⟩
      refine ⟨?_, ?_⟩
      · rw [result]
        exact (nameless.mpr empty).symm
      · rw [result, effectivePort_invisible invisible empty]
        exact (defaultPort_eq_iff uri).mpr scheme

/-- The port of a URI, whatever is written for it. -/
theorem uriPort_iff {text : Option (List Char)} (reads : uri.Reads text) :
    (getHostPort none uri).2 = effectivePort uri text ↔
      PortMet uri text (text.bind signedPort) := by
  show uri.portU16.getD (defaultPort uri) = _ ↔ _
  rw [reads, funext parseU16_eq]
  exact getD_found_eq_iff signedPort_of_written uri text

/-- For every scheme, every Host header and every URI without one: the port is the
effective one, and the host of the header the name, exactly under these conditions. -/
theorem effectivePort_iff (uri : Uri) :
    (∀ name text, 58 ∉ name → (HeaderRead uri name text ↔ HeaderMet uri name text)) ∧
      ∀ text, uri.Reads text →
        ((getHostPort none uri).2 = effectivePort uri text ↔
          PortMet uri text (text.bind signedPort)) :=
  ⟨fun _ _ noColon => headerRead_iff noColon, fun _ reads => uriPort_iff reads⟩

/-- The authority `a.com:8443`. -/
def secureAuthority : Authority where
  host := .regName ⟨['a', '.', 'c', 'o', 'm'], by decide⟩
  port := some ⟨['8', '4', '4', '3'], by decide⟩

/-- The URI `https://a.com:8443` and the header `a.com:08443`. -/
theorem effectivePort_iff_written :
    HeaderRead ⟨some "https", some "a.com", some 8443, "/"⟩ (HeaderValue.ofText "a.com").bytes
        (some (HeaderValue.ofText "08443").bytes) ∧
      (getHostPort none ⟨some "https", some "a.com", some 8443, "/"⟩).2 =
        effectivePort ⟨some "https", some "a.com", some 8443, "/"⟩
          (secureAuthority.port.map Authority.Port.digits) := by
  have carries : Uri.Carries ⟨some "https", some "a.com", some 8443, "/"⟩ secureAuthority :=
    ⟨by decide, by decide⟩
  obtain ⟨header, uri⟩ := effectivePort_iff ⟨some "https", some "a.com", some 8443, "/"⟩
  refine ⟨(header _ _ (by decide)).mpr ?_, (uri _ carries.reads).mpr (.inl (by decide))⟩
  unfold HeaderMet
  rw [if_pos (by decide)]
  exact .inl (by decide)

/-- Under `https` a header without a port gets port 433. -/
theorem https_default : ¬∀ uri name text, 58 ∉ name → HeaderRead uri name text := by
  intro read
  have port := (read ⟨some "https", some "a.com", none, "/"⟩ (HeaderValue.ofText "a.com").bytes
    none (by decide)).port
  exact absurd port (by decide)

end SimplyProxy
