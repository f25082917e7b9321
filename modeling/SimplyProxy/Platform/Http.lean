import Mathlib.Data.List.Basic
import SimplyProxy.Base.Authority

/-!
# HTTP headers and URIs

What the code uses of the `http` crate. A header value is a string of bytes;
`toStr` succeeds on visible ASCII and tabs only. A header map keeps any number of
values for a name; names compare without case, so they are stored in lower case.
Of a URI the code only sees what its accessors return.
-/

namespace SimplyProxy

/-! ## Header values -/

structure HeaderValue where
  bytes : List UInt8
deriving DecidableEq

namespace HeaderValue

/-- The value that holds an ASCII text. -/
def ofText (s : String) : HeaderValue := ⟨s.toList.map fun c => .ofNat c.toNat⟩

def visibleAscii (b : UInt8) : Bool := (32 ≤ b && b < 127) || b = 9

def toStr (v : HeaderValue) : Option String :=
  if v.bytes.all visibleAscii then
    some (String.ofList (v.bytes.map fun b => Char.ofNat b.toNat))
  else none

theorem toNat_ofNat_toNat (b : UInt8) : (Char.ofNat b.toNat).toNat = b.toNat := by
  have valid : b.toNat.isValidChar := .inl (by have := b.toNat_lt; omega)
  rw [Char.ofNat, dif_pos valid]
  rfl

theorem ofNat_toNat_injective : Function.Injective fun b : UInt8 => Char.ofNat b.toNat := by
  intro a b h
  have same := congrArg Char.toNat h
  simp only [toNat_ofNat_toNat] at same
  exact UInt8.toNat_inj.mp same

/-- The characters whose codes are the bytes. -/
def latin1 (bytes : List UInt8) : List Char := bytes.map fun b => Char.ofNat b.toNat

theorem mem_latin1 {bytes : List UInt8} (b : UInt8) :
    Char.ofNat b.toNat ∈ latin1 bytes ↔ b ∈ bytes :=
  List.mem_map_of_injective ofNat_toNat_injective

theorem toStr_eq_ite (v : HeaderValue) :
    v.toStr = if v.bytes.all visibleAscii then some (String.ofList (latin1 v.bytes)) else none :=
  rfl

/-- Visible ASCII text comes back from a header value. -/
theorem toStr_ofText {cs : List Char} (h : ∀ c ∈ cs, Authority.visible c) :
    (ofText (String.ofList cs)).toStr = some (String.ofList cs) := by
  have small : ∀ c ∈ cs, (UInt8.ofNat c.toNat).toNat = c.toNat := fun c hc =>
    UInt8.toNat_ofNat_of_lt' (Nat.lt_trans (h c hc).2 (by decide))
  have back : cs.map (fun c => Char.ofNat (UInt8.ofNat c.toNat).toNat) = cs := by
    refine (List.map_congr_left fun c hc => ?_).trans (List.map_id cs)
    rw [small c hc, Char.ofNat_toNat]
    rfl
  have allVisible : (cs.map fun c => UInt8.ofNat c.toNat).all visibleAscii = true := by
    simp only [List.all_map, List.all_eq_true, Function.comp_apply]
    intro c hc
    have := h c hc
    have low : 32 ≤ UInt8.ofNat c.toNat := by
      rw [UInt8.le_iff_toNat_le, small c hc]
      exact Nat.le_of_succ_le this.1
    have high : UInt8.ofNat c.toNat < 127 := by
      rw [UInt8.lt_iff_toNat_lt, small c hc]
      exact this.2
    simp [visibleAscii, low, high]
  simp only [toStr, ofText, String.toList_ofList, allVisible, if_true, List.map_map]
  exact congrArg (fun l => some (String.ofList l)) back

end HeaderValue

/-! ## Header maps -/

structure HeaderMap where
  entries : List (String × HeaderValue)
deriving DecidableEq

namespace HeaderMap

/-- A header name as it is stored and compared. -/
def headerName (name : String) : String := String.ofList (name.toList.map Char.toLower)

def get (m : HeaderMap) (name : String) : Option HeaderValue :=
  (m.entries.find? fun e => e.1 = headerName name).map Prod.snd

def containsKey (m : HeaderMap) (name : String) : Bool :=
  m.entries.any fun e => e.1 = headerName name

def remove (m : HeaderMap) (name : String) : HeaderMap :=
  ⟨m.entries.filter fun e => e.1 ≠ headerName name⟩

/-- Sets the only value of a name, in place of all it had. -/
def insert (m : HeaderMap) (name : String) (value : HeaderValue) : HeaderMap :=
  ⟨(m.remove name).entries ++ [(headerName name, value)]⟩

/-- All values of a name, in order. -/
def getAll (m : HeaderMap) (name : String) : List HeaderValue :=
  (m.entries.filter fun e => e.1 = headerName name).map Prod.snd

/-- The map of fields that come in, with their names in any spelling. -/
def ofFields (fields : List (String × HeaderValue)) : HeaderMap :=
  ⟨fields.map fun field => (headerName field.1, field.2)⟩

/-- Header maps are equal when every name has the same values. -/
def Same (m m' : HeaderMap) : Prop := ∀ name, m.getAll name = m'.getAll name

theorem get_eq_head? (m : HeaderMap) (name : String) : m.get name = (m.getAll name).head? := by
  unfold get getAll
  rw [List.head?_map, List.head?_filter]

theorem containsKey_iff (m : HeaderMap) (name : String) :
    m.containsKey name = true ↔ m.getAll name ≠ [] := by
  unfold containsKey getAll
  rw [Ne, List.map_eq_nil_iff, List.filter_eq_nil_iff, List.any_eq_true]
  simp

theorem mem_getAll_ofFields {fields : List (String × HeaderValue)} {name : String}
    {value : HeaderValue} : value ∈ (ofFields fields).getAll name ↔
      ∃ field ∈ fields, headerName field.1 = headerName name ∧ field.2 = value := by
  unfold getAll ofFields
  rw [List.filter_map, List.map_map]
  simp only [List.mem_map, List.mem_filter, Function.comp_apply, decide_eq_true_eq, and_assoc]

theorem getAll_remove (m : HeaderMap) (name name' : String) :
    (m.remove name).getAll name' =
      if headerName name' = headerName name then [] else m.getAll name' := by
  unfold getAll remove
  rw [List.filter_filter]
  split
  · next same =>
    rw [same, List.map_eq_nil_iff, List.filter_eq_nil_iff]
    simp
  · next other =>
    congr 1
    refine List.filter_congr fun e _ => ?_
    by_cases found : e.1 = headerName name'
    · simp [found, other]
    · simp [found]

theorem getAll_insert (m : HeaderMap) (name name' : String) (value : HeaderValue) :
    (m.insert name value).getAll name' =
      if headerName name' = headerName name then [value] else m.getAll name' := by
  have removed := m.getAll_remove name name'
  unfold getAll at removed ⊢
  unfold insert
  rw [List.filter_append, List.map_append, removed]
  split
  · next same => simp [same]
  · next other => simp [Ne.symm other]

end HeaderMap

/-! ## URIs and messages -/

/-- What the accessors of a `http::Uri` return. -/
structure Uri where
  scheme : Option String
  host : Option String
  portU16 : Option UInt16
  path : String

/-- The accessors of a URI whose authority is `a`. -/
structure Uri.Carries (uri : Uri) (a : Authority) : Prop where
  host : uri.host = some (String.ofList a.hostText)
  portU16 : uri.portU16 = a.portU16

structure RequestHeader where
  uri : Uri
  headers : HeaderMap

structure ResponseHeader where
  status : UInt16
  headers : HeaderMap

def ResponseHeader.build (status : UInt16) : ResponseHeader := ⟨status, ⟨[]⟩⟩

def ResponseHeader.insertHeader (r : ResponseHeader) (name : String) (value : HeaderValue) :
    ResponseHeader := { r with headers := r.headers.insert name value }

def ResponseHeader.removeHeader (r : ResponseHeader) (name : String) : ResponseHeader :=
  { r with headers := r.headers.remove name }

/-- The address of a client: its IP address as it prints in front of a port, with the
brackets of an IPv6 address, and its source port. -/
structure SocketAddr where
  ip : String
  port : UInt16
deriving DecidableEq

/-- `ip:port`, as an address prints. -/
def SocketAddr.toString (a : SocketAddr) : String := a.ip ++ ":" ++ ToString.toString a.port

end SimplyProxy
