import Mathlib.Algebra.Group.Nat.Defs
import Mathlib.Data.List.Basic

/-!
# The authority component of a URI

The `authority` of RFC 3986, section 3.2, without userinfo: a host, which is a
registered name, an IPv4 address or an IPv6 literal in brackets, and an optional
port. Values are the derivations of the grammar, `text` is the string they
derive, and `hostText` and `portU16` are its parts.

1. `colon_mem_hostText_iff`: the host has a colon exactly when it is an IPv6 literal.
2. `text_visible`: the text is visible ASCII.
-/

namespace Authority

/-! ## Grammar -/

def unreserved (c : Char) : Bool := c.isAlphanum || ['-', '.', '_', '~'].contains c

def subDelim (c : Char) : Bool :=
  ['!', '$', '&', '\'', '(', ')', '*', '+', ',', ';', '='].contains c

def hexDigit (c : Char) : Bool :=
  c.isDigit || ['a', 'b', 'c', 'd', 'e', 'f', 'A', 'B', 'C', 'D', 'E', 'F'].contains c

def regName : List Char → Bool
  | '%' :: a :: b :: rest => hexDigit a && hexDigit b && regName rest
  | c :: rest => (unreserved c || subDelim c) && regName rest
  | [] => true

structure RegName where
  chars : List Char
  valid : regName chars = true

/-- Four octets, written in decimal without leading zeros. -/
structure Ipv4 where
  a : UInt8
  b : UInt8
  c : UInt8
  d : UInt8

def octetText (n : UInt8) : List Char := Nat.toDigits 10 n.toNat

def Ipv4.text (ip : Ipv4) : List Char :=
  ['.'].intercalate [octetText ip.a, octetText ip.b, octetText ip.c, octetText ip.d]

/-- One to four hexadecimal digits. -/
structure H16 where
  chars : List Char
  valid : 1 ≤ chars.length ∧ chars.length ≤ 4 ∧ chars.all hexDigit

/-- Groups, and at the end possibly an IPv4 address, which counts for two. -/
structure Groups where
  h16s : List H16
  last : Option Ipv4

def Groups.count (g : Groups) : Nat := g.h16s.length + if g.last.isSome then 2 else 0

def Groups.texts (g : Groups) : List (List Char) :=
  g.h16s.map H16.chars ++ (g.last.map Ipv4.text).toList

/-- An IPv6 address: eight groups, or at most seven with `::` for the missing ones. -/
inductive Ipv6
  | full (groups : Groups) (count : groups.count = 8)
  | compressed (left : List H16) (right : Groups) (count : left.length + right.count ≤ 7)

def Ipv6.text : Ipv6 → List Char
  | .full groups _ => [':'].intercalate groups.texts
  | .compressed left right _ =>
    [':'].intercalate (left.map H16.chars) ++ [':', ':'] ++ [':'].intercalate right.texts

inductive Host
  | regName (name : RegName)
  | ipv4 (ip : Ipv4)
  | ipv6 (ip : Ipv6)

def Host.text : Host → List Char
  | .regName name => name.chars
  | .ipv4 ip => ip.text
  | .ipv6 ip => '[' :: ip.text ++ [']']

def Host.isIpv6 : Host → Bool
  | .ipv6 _ => true
  | _ => false

/-- Any number of decimal digits, also none. -/
structure Port where
  digits : List Char
  valid : digits.all Char.isDigit

end Authority

structure Authority where
  host : Authority.Host
  port : Option Authority.Port

namespace Authority

/-- The host part, with the brackets of an IPv6 literal. -/
def hostText (a : Authority) : List Char := a.host.text

def text (a : Authority) : List Char :=
  a.hostText ++ match a.port with
    | none => []
    | some port => ':' :: port.digits

def Port.value (port : Port) : Nat := Nat.ofDigitChars 10 port.digits 0

/-- The port where it is present, not empty and fits sixteen bits. -/
def portU16 (a : Authority) : Option UInt16 :=
  a.port.bind fun port =>
    if port.digits ≠ [] ∧ port.value < 2 ^ 16 then some (.ofNat port.value) else none

/-! ## Characters -/

def visible (c : Char) : Prop := 33 ≤ c.toNat ∧ c.toNat < 127

/-- The characters of a host outside IPv6 literals. -/
def plain (c : Char) : Prop := visible c ∧ c ≠ ':'

instance : DecidablePred visible := fun _ => inferInstanceAs (Decidable (_ ∧ _))
instance : DecidablePred plain := fun _ => inferInstanceAs (Decidable (_ ∧ _))

theorem plain_of_isAlphanum {c : Char} (h : c.isAlphanum) : plain c := by
  change (((65 ≤ c.val ∧ c.val ≤ 90 : Bool) || (97 ≤ c.val && c.val ≤ 122)) ||
    (48 ≤ c.val && c.val ≤ 57)) = true at h
  simp only [Bool.or_eq_true, Bool.and_eq_true, decide_eq_true_eq, UInt32.le_iff_toNat_le] at h
  change ((65 ≤ c.toNat ∧ c.toNat ≤ 90) ∨ (97 ≤ c.toNat ∧ c.toNat ≤ 122)) ∨
    (48 ≤ c.toNat ∧ c.toNat ≤ 57) at h
  refine ⟨⟨by omega, by omega⟩, ?_⟩
  rintro rfl
  have : ':'.toNat = 58 := rfl
  omega

theorem plain_of_isDigit {c : Char} (h : c.isDigit) : plain c :=
  plain_of_isAlphanum (by simp [Char.isAlphanum, h])

theorem plain_of_contains {cs : List Char} (h : cs.all fun c => plain c) {c : Char}
    (hc : cs.contains c) : plain c :=
  of_decide_eq_true (List.all_eq_true.mp h c (List.contains_iff_mem.mp hc))

theorem plain_of_hexDigit {c : Char} (h : hexDigit c) : plain c := by
  rcases Bool.or_eq_true _ _ ▸ h with h | h
  · exact plain_of_isDigit h
  · exact plain_of_contains (by decide) h

theorem plain_of_unreserved {c : Char} (h : unreserved c) : plain c := by
  rcases Bool.or_eq_true _ _ ▸ h with h | h
  · exact plain_of_isAlphanum h
  · exact plain_of_contains (by decide) h

theorem plain_of_subDelim {c : Char} (h : subDelim c) : plain c :=
  plain_of_contains (by decide) h

theorem plain_of_regName {cs : List Char} (h : regName cs) : ∀ c ∈ cs, plain c := by
  fun_induction regName cs with
  | case1 a b rest ih =>
    simp only [Bool.and_eq_true] at h
    obtain ⟨⟨ha, hb⟩, hrest⟩ := h
    simp only [List.forall_mem_cons]
    exact ⟨by decide, plain_of_hexDigit ha, plain_of_hexDigit hb, ih hrest⟩
  | case2 c rest _ ih =>
    simp only [Bool.and_eq_true, Bool.or_eq_true] at h
    exact List.forall_mem_cons.mpr ⟨h.1.elim plain_of_unreserved plain_of_subDelim, ih h.2⟩
  | case3 => simp

theorem mem_intercalate {sep c : Char} {parts : List (List Char)}
    (h : c ∈ [sep].intercalate parts) : c = sep ∨ ∃ part ∈ parts, c ∈ part := by
  induction parts with
  | nil => simp at h
  | cons part rest ih =>
    cases rest with
    | nil => exact .inr ⟨part, by simp, by simpa using h⟩
    | cons next rest =>
      rw [List.intercalate_cons_cons, List.append_assoc, List.mem_append] at h
      rcases h with h | h
      · exact .inr ⟨part, by simp, h⟩
      · rcases List.mem_cons.mp h with rfl | h
        · exact .inl rfl
        · rcases ih h with rfl | ⟨p, mem, hc⟩
          · exact .inl rfl
          · exact .inr ⟨p, List.mem_cons_of_mem _ mem, hc⟩

theorem plain_of_ipv4 (ip : Ipv4) : ∀ c ∈ ip.text, plain c := by
  have octet (n : UInt8) : ∀ c ∈ octetText n, plain c := fun c hc =>
    plain_of_isDigit (Nat.isDigit_of_mem_toDigits (by decide) (by decide) hc)
  intro c hc
  rcases mem_intercalate hc with rfl | ⟨part, mem, hc⟩
  · decide
  · simp only [List.mem_cons, List.not_mem_nil, or_false] at mem
    rcases mem with rfl | rfl | rfl | rfl
    all_goals exact octet _ c hc

theorem plain_of_groups (g : Groups) : ∀ part ∈ g.texts, ∀ c ∈ part, plain c := by
  intro part mem c hc
  rcases List.mem_append.mp mem with mem | mem
  · obtain ⟨h16, -, rfl⟩ := List.mem_map.mp mem
    exact plain_of_hexDigit (List.all_eq_true.mp h16.valid.2.2 c hc)
  · obtain ⟨ip, -, rfl⟩ : ∃ ip, g.last = some ip ∧ ip.text = part := by simpa using mem
    exact plain_of_ipv4 ip c hc

theorem visible_of_groups (g : Groups) : ∀ c ∈ [':'].intercalate g.texts, visible c := by
  intro c hc
  rcases mem_intercalate hc with rfl | ⟨part, mem, hc⟩
  · decide
  · exact (plain_of_groups g part mem c hc).1

theorem visible_of_ipv6 (ip : Ipv6) : ∀ c ∈ ip.text, visible c := by
  cases ip with
  | full groups _ => exact visible_of_groups groups
  | compressed left right _ =>
    intro c hc
    simp only [Ipv6.text, List.mem_append] at hc
    rcases hc with (hc | hc) | hc
    · exact visible_of_groups ⟨left, none⟩ c (by simpa [Groups.texts] using hc)
    · simp only [List.mem_cons, List.not_mem_nil, or_false, or_self] at hc
      subst hc
      decide
    · exact visible_of_groups right c hc

/-- An IPv6 address has a colon: it has at least two groups or `::`. -/
theorem colon_mem_ipv6 (ip : Ipv6) : ':' ∈ ip.text := by
  cases ip with
  | full groups count =>
    have long : 2 ≤ groups.texts.length := by
      have : groups.texts.length = groups.h16s.length + groups.last.toList.length := by
        cases h : groups.last <;> simp [Groups.texts, h]
      cases h : groups.last <;> simp [Groups.count, h] at count <;> omega
    obtain ⟨first, second, rest, equal⟩ : ∃ first second rest,
        groups.texts = first :: second :: rest := by
      match h : groups.texts, long with
      | first :: second :: rest, _ => exact ⟨first, second, rest, rfl⟩
    simp [Ipv6.text, equal, List.intercalate_cons_cons]
  | compressed left right _ => simp [Ipv6.text]

/-! ## Host and text -/

theorem plain_of_hostText {a : Authority} (h : a.host.isIpv6 = false) :
    ∀ c ∈ a.hostText, plain c := by
  cases equal : a.host with
  | regName name => simpa [hostText, Host.text, equal] using plain_of_regName name.valid
  | ipv4 ip => simpa [hostText, Host.text, equal] using plain_of_ipv4 ip
  | ipv6 ip => simp [Host.isIpv6, equal] at h

/-- Only an IPv6 literal has a colon of its own. -/
theorem colon_mem_hostText_iff {a : Authority} : ':' ∈ a.hostText ↔ a.host.isIpv6 = true := by
  constructor
  · intro colon
    cases h : a.host.isIpv6 with
    | true => rfl
    | false => exact absurd rfl (plain_of_hostText h ':' colon).2
  · intro h
    cases equal : a.host with
    | ipv6 ip => simp [hostText, Host.text, equal, colon_mem_ipv6 ip]
    | regName _ => simp [Host.isIpv6, equal] at h
    | ipv4 _ => simp [Host.isIpv6, equal] at h

theorem plain_of_port (port : Port) : ∀ c ∈ port.digits, plain c :=
  fun c hc => plain_of_isDigit (List.all_eq_true.mp port.valid c hc)

theorem text_visible (a : Authority) : ∀ c ∈ a.text, visible c := by
  intro c hc
  rcases List.mem_append.mp hc with hc | hc
  · cases h : a.host with
    | ipv6 ip =>
      simp only [hostText, Host.text, h, List.cons_append, List.mem_cons, List.mem_append,
        List.not_mem_nil, or_false] at hc
      rcases hc with rfl | hc | rfl
      · decide
      · exact visible_of_ipv6 ip c hc
      · decide
    | regName _ => exact (plain_of_hostText (by simp [h, Host.isIpv6]) c hc).1
    | ipv4 _ => exact (plain_of_hostText (by simp [h, Host.isIpv6]) c hc).1
  · cases h : a.port with
    | none => simp [h] at hc
    | some port =>
      rw [h] at hc
      rcases List.mem_cons.mp hc with rfl | hc
      · decide
      · exact (plain_of_port port c hc).1

end Authority
