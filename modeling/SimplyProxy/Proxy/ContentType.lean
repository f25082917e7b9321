import SimplyProxy.Base.MediaType
import SimplyProxy.Proxy.BodyFilter

/-!
# Which responses are rewritten

A response is to be rewritten when its media type is `application/json`, in any case of
the letters and with any parameters. The body filter looks for a content type that
begins with `application/json`, as it is spelled.

1. `onlyJson_iff`: exactly the JSON responses are rewritten, and those of a similar type
   left alone, for a media type that does not begin with these letters in any case, or
   that is `application/json` in lower case, without bytes that are not visible ASCII.
2. `jsonPatch_rewritten`: a response of type `application/json-patch+json` is rewritten.
-/

namespace SimplyProxy
namespace SimpleProxy
open JsonText (encode)

/-! ## The prefix test -/

/-- The bytes of `application/json`. -/
def jsonName : List UInt8 := (HeaderValue.ofText "application/json").bytes

theorem jsonName_inside : ∀ b ∈ jsonName, MediaType.Inside b := by
  have inside : jsonName.all fun b => MediaType.Inside b := by decide
  intro b mem
  exact of_decide_eq_true (List.all_eq_true.mp inside b mem)

theorem jsonName_lower : jsonName.map MediaType.lower = jsonName := by decide

/-- The test on the text of a header value is one on its bytes. -/
theorem isJson_iff {value : HeaderValue} {text : String} (h : value.toStr = some text) :
    isJson text = true ↔ jsonName <+: value.bytes := by
  have name : "application/json".toList = jsonName.map fun b => Char.ofNat b.toNat := by decide
  unfold HeaderValue.toStr at h
  split at h
  · obtain rfl := Option.some.inj h
    show "application/json".toList.isPrefixOf _ = true ↔ _
    rw [List.isPrefixOf_iff_prefix, name, String.toList_ofList,
      List.prefix_map_iff_of_injective HeaderValue.ofNat_toNat_injective]
  · cases h

/-- The code takes a response for JSON. -/
def TakenForJson (m : MediaType) : Prop :=
  m.text.all HeaderValue.visibleAscii = true ∧ jsonName <+: m.essence

/-- The content type in the context of a response that is taken for JSON, and of one that
is not. -/
theorem responseCtx_taken {header : ResponseHeader} {m : MediaType}
    (contentType : header.headers.get "content-type" = some ⟨m.text⟩) :
    (TakenForJson m → ∃ c, (responseCtx header).respContentType = some c ∧ isJson c = true) ∧
      (¬TakenForJson m →
        ∀ c, (responseCtx header).respContentType = some c → isJson c = false) := by
  have stored : (responseCtx header).respContentType = (HeaderValue.mk m.text).toStr := by
    show (header.headers.get "content-type").bind HeaderValue.toStr = _
    rw [contentType]
    rfl
  rw [stored]
  constructor
  · rintro ⟨visible, begins⟩
    have text : (HeaderValue.mk m.text).toStr =
        some (String.ofList (m.text.map fun b => Char.ofNat b.toNat)) := if_pos visible
    exact ⟨_, text, (isJson_iff text).mpr ((m.prefix_text_iff jsonName_inside).mpr begins)⟩
  · intro other c text
    by_contra json
    have json : isJson c = true := by simpa using json
    have visible : m.text.all HeaderValue.visibleAscii = true := by
      by_contra invisible
      simp [HeaderValue.toStr, invisible] at text
    exact other ⟨visible, (m.prefix_text_iff jsonName_inside).mp ((isJson_iff text).mp json)⟩

/-! ## Only JSON, and all of it -/

/-- A call leaves the body that it was given, or holds it back. -/
def PassesOn (left came : Option Bytes) : Prop := left = came ∨ left = none

/-- What leaves for a body that is an object: the marked document when the media type is
JSON; nothing that was added when it is another one; and all that came in when that one
begins with the letters of JSON. -/
structure Leaves (serde : SerdeJson) (m : MediaType) (members : Members)
    (came left : List (Option Bytes)) : Prop where
  json : m.Is jsonName → ∃ data, serde.toWriter (tag (.object members)) = some data ∧
    joined left = data
  other : ¬m.Is jsonName → List.Forall₂ PassesOn left came
  similar : ¬m.Is jsonName → m.Begins jsonName → joined left = joined came

/-- For every response with the content type, and every way of cutting a body that is an
object. -/
def OnlyJsonRewritten (serde : SerdeJson) (m : MediaType) : Prop :=
  ∀ (header : ResponseHeader) (init : List (Option Bytes)) (last : Option Bytes)
    (members : Members), header.headers.get "content-type" = some ⟨m.text⟩ →
    serde.fromSlice (joined (init ++ [last])) = some (.object members) →
      ∃ left ctx, runBody serde (responseCtx header) (calls init last) = .ok (left, ctx) ∧
        Leaves serde m members (init ++ [last]) left

variable {serde : SerdeJson} {header : ResponseHeader} {m : MediaType}
  {init : List (Option Bytes)} {last : Option Bytes} {members : Members}

/-- The run of a response that is taken for JSON. -/
theorem run_taken (nonempty : serde.fromSlice [] = none)
    (total : ∀ v, ∃ data, serde.toWriter v = some data)
    (contentType : header.headers.get "content-type" = some ⟨m.text⟩) (taken : TakenForJson m)
    (parsed : serde.fromSlice (joined (init ++ [last])) = some (.object members)) :
    ∃ data ctx, serde.toWriter (tag (.object members)) = some data ∧
      runBody serde (responseCtx header) (calls init last) =
        .ok (List.replicate init.length none ++ [some data], ctx) := by
  obtain ⟨c, stored, json⟩ := (responseCtx_taken contentType).1 taken
  obtain ⟨data, written⟩ := total (tag (.object members))
  obtain ⟨ctx, run, -⟩ := run_rewritten nonempty stored json parsed written
  exact ⟨data, ctx, written, run⟩

/-- The run of one that is not. -/
theorem run_notTaken (contentType : header.headers.get "content-type" = some ⟨m.text⟩)
    (other : ¬TakenForJson m) (init : List (Option Bytes)) (last : Option Bytes) :
    ∃ ctx, runBody serde (responseCtx header) (calls init last) =
      .ok (List.replicate init.length none ++ [last], ctx) := by
  have untouched : Untouched serde (responseCtx header).respContentType
      (joined (init ++ [last])) := by
    intro c stored json
    rw [(responseCtx_taken contentType).2 other c stored] at json
    cases json
  obtain ⟨ctx, run, -⟩ := run_untouched untouched
  exact ⟨ctx, run⟩

theorem passesOn_unfinished (init : List (Option Bytes)) (last : Option Bytes) :
    List.Forall₂ PassesOn (List.replicate init.length none ++ [last]) (init ++ [last]) := by
  induction init with
  | nil => exact .cons (.inl rfl) .nil
  | cons body init ih => exact .cons (.inr rfl) ih

/-- A media type that does not begin with the letters of JSON. -/
theorem onlyJson_of_apart (apart : ¬m.Begins jsonName) : OnlyJsonRewritten serde m := by
  intro header init last members contentType _
  have notJson : ¬m.Is jsonName := fun named => apart named.begins
  have other : ¬TakenForJson m := fun taken =>
    apart (MediaType.begins_of_prefix jsonName_lower taken.2)
  obtain ⟨ctx, run⟩ := run_notTaken contentType other init last
  exact ⟨_, ctx, run, fun named => absurd named notJson, fun _ => passesOn_unfinished init last,
    fun _ begins => absurd begins apart⟩

/-- JSON as the code spells it. -/
theorem onlyJson_of_spelled (nonempty : serde.fromSlice [] = none)
    (total : ∀ v, ∃ data, serde.toWriter v = some data) (spelled : m.essence = jsonName)
    (visible : m.text.all HeaderValue.visibleAscii = true) : OnlyJsonRewritten serde m := by
  intro header init last members contentType parsed
  have named : m.Is jsonName := by
    rw [MediaType.Is, spelled]
    exact jsonName_lower
  have taken : TakenForJson m := ⟨visible, spelled ▸ List.prefix_refl _⟩
  obtain ⟨data, ctx, written, run⟩ := run_taken nonempty total contentType taken parsed
  exact ⟨_, ctx, run, fun _ => ⟨data, written, by simp [joined_append]⟩,
    fun notJson => absurd named notJson, fun notJson => absurd named notJson⟩

/-- A header with nothing but a content type. -/
def typedHeader (m : MediaType) : ResponseHeader := ⟨200, ⟨[("content-type", ⟨m.text⟩)]⟩⟩

theorem typedHeader_contentType (m : MediaType) :
    (typedHeader m).headers.get "content-type" = some ⟨m.text⟩ := by
  have name : HeaderMap.headerName "content-type" = "content-type" := by decide
  simp [typedHeader, HeaderMap.get, name]

/-- What a run leaves, under the assumption that all such runs do as they should. -/
theorem OnlyJsonRewritten.leaves (only : OnlyJsonRewritten serde m)
    (contentType : header.headers.get "content-type" = some ⟨m.text⟩)
    (parsed : serde.fromSlice (joined (init ++ [last])) = some (.object members))
    {left : List (Option Bytes)} {ctx : ProxyContext}
    (run : runBody serde (responseCtx header) (calls init last) = .ok (left, ctx)) :
    Leaves serde m members (init ++ [last]) left := by
  obtain ⟨left', ctx', run', leaves⟩ := only header init last members contentType parsed
  obtain ⟨rfl, -⟩ := Prod.mk.inj (Except.ok.inj (run.symm.trans run'))
  exact leaves

/-- The empty object as a body: the code must take JSON for JSON and no similar type for
JSON, and then it still loses a chunk of the similar type. -/
theorem spelled_of_onlyJson (nonempty : serde.fromSlice [] = none)
    (total : ∀ v, ∃ data, serde.toWriter v = some data)
    (empty : serde.fromSlice (encode "\x7b\x7d") = some (.object []))
    (marked : serde.toWriter (tag (.object [])) ≠ some (encode "\x7b\x7d"))
    (only : OnlyJsonRewritten serde m) (begins : m.Begins jsonName) :
    m.essence = jsonName ∧ m.text.all HeaderValue.visibleAscii = true := by
  have contentType := typedHeader_contentType m
  have whole : serde.fromSlice (joined ([] ++ [some (encode "\x7b\x7d")])) = some (.object []) :=
    empty
  have halves : serde.fromSlice (joined ([some (encode "\x7b")] ++ [some (encode "\x7d")])) =
    some (.object []) := empty
  by_cases named : m.Is jsonName
  · by_cases taken : TakenForJson m
    · exact ⟨MediaType.essence_eq_of_prefix named taken.2, taken.1⟩
    · -- the object goes through as it is
      obtain ⟨ctx, run⟩ := run_notTaken contentType taken [] (some (encode "\x7b\x7d"))
      obtain ⟨data, written, same⟩ := (only.leaves contentType whole run).json named
      have same : encode "\x7b\x7d" = data := same
      exact absurd (same ▸ written) marked
  · exfalso
    by_cases taken : TakenForJson m
    · -- the object is marked
      obtain ⟨data, ctx, written, run⟩ := run_taken nonempty total contentType taken whole
      have same := (only.leaves contentType whole run).similar named begins
      have same : joined [some data] = encode "\x7b\x7d" := same
      rw [joined_singleton] at same
      exact marked (same ▸ written)
    · -- in two chunks the object is cut
      obtain ⟨ctx, run⟩ := run_notTaken contentType taken [some (encode "\x7b")]
        (some (encode "\x7d"))
      have same := (only.leaves contentType halves run).similar named begins
      exact absurd same (by decide)

/-- Exactly the JSON responses are rewritten, and those of a similar type leave as they
came, if and only if the media type does not begin with the letters of JSON, or it is JSON
as the code spells it. -/
theorem onlyJson_iff (nonempty : serde.fromSlice [] = none)
    (total : ∀ v, ∃ data, serde.toWriter v = some data)
    (empty : serde.fromSlice (encode "\x7b\x7d") = some (.object []))
    (marked : serde.toWriter (tag (.object [])) ≠ some (encode "\x7b\x7d")) (m : MediaType) :
    OnlyJsonRewritten serde m ↔ ¬m.Begins jsonName ∨
      (m.essence = jsonName ∧ m.text.all HeaderValue.visibleAscii = true) := by
  constructor
  · intro only
    by_cases begins : m.Begins jsonName
    · exact .inr (spelled_of_onlyJson nonempty total empty marked only begins)
    · exact .inl begins
  · rintro (apart | ⟨spelled, visible⟩)
    · exact onlyJson_of_apart apart
    · exact onlyJson_of_spelled nonempty total spelled visible

def jsonUtf8 : MediaType where
  type := ⟨(HeaderValue.ofText "application").bytes, by decide, by decide⟩
  subtype := ⟨(HeaderValue.ofText "json").bytes, by decide, by decide⟩
  space := []
  params := (HeaderValue.ofText "; charset=utf-8").bytes
  space_valid := by simp
  params_valid := .inr rfl

def jsonPatch : MediaType where
  type := ⟨(HeaderValue.ofText "application").bytes, by decide, by decide⟩
  subtype := ⟨(HeaderValue.ofText "json-patch+json").bytes, by decide, by decide⟩
  space := []
  params := []
  space_valid := by simp
  params_valid := .inl rfl

theorem reference_empty :
    SerdeJson.reference.fromSlice (encode "\x7b\x7d") = some (.object []) := rfl

theorem reference_marked :
    SerdeJson.reference.toWriter (tag (.object [])) ≠ some (encode "\x7b\x7d") := by
  intro written
  have readBack : SerdeJson.reference.fromSlice (encode "\x7b\x7d") = some (tag (.object [])) :=
    SerdeJson.reference_readsBack rfl written
  rw [reference_empty] at readBack
  cases readBack

/-- JSON with a parameter is rewritten, and all of it. -/
theorem onlyJson_iff_utf8 : OnlyJsonRewritten .reference jsonUtf8 :=
  (onlyJson_iff SerdeJson.reference_documented.fromSlice_nil (fun _ => ⟨_, rfl⟩) reference_empty
    reference_marked jsonUtf8).mpr (.inr (by decide))

/-- A JSON patch is another media type, and is marked. -/
theorem jsonPatch_rewritten : ¬OnlyJsonRewritten .reference jsonPatch := by
  intro only
  have begins : jsonPatch.Begins jsonName := by decide
  have spelled := spelled_of_onlyJson SerdeJson.reference_documented.fromSlice_nil
    (fun _ => ⟨_, rfl⟩) reference_empty reference_marked only begins
  have other : jsonPatch.essence ≠ jsonName := by decide
  exact other spelled.1

end SimpleProxy

end SimplyProxy
