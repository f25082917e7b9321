import SimplyProxy.Proxy.Chain

/-!
# The framing of a response

HTTP/1.1 ends the body of a response by its Content-Length or by the chunked
Transfer-Encoding, never by both. Responses of status 1xx and 204 have no body, and
must not carry a Transfer-Encoding.

The header filter runs before the body filter changes the length of the body. It
drops the Content-Length and sets the Transfer-Encoding of every response.

1. `framing_iff`: what leaves is well framed exactly when the status is not one of a
   response without body, or the response came in with the chunked encoding.
2. `noContent_chunked`: a 204 response leaves with a Transfer-Encoding.
-/

namespace SimplyProxy
namespace SimpleProxy

/-- A response whose status says that it carries no Transfer-Encoding. -/
def Bodiless (status : UInt16) : Prop := (100 ≤ status ∧ status < 200) ∨ status = 204

instance : DecidablePred Bodiless := fun _ => inferInstanceAs (Decidable (_ ∨ _))

def lowerByte (b : UInt8) : UInt8 := if 65 ≤ b ∧ b ≤ 90 then b + 32 else b

/-- Transfer codings are the same in any letter case. -/
def SameCoding (value value' : HeaderValue) : Prop :=
  value.bytes.map lowerByte = value'.bytes.map lowerByte

/-- The header that leaves, with the bytes that leave, against the header that came in. -/
structure WellFramed (came left : ResponseHeader) (sent : Bytes) : Prop where
  exclusive : left.headers.getAll "content-length" = [] ∨
    left.headers.getAll "transfer-encoding" = []
  contentLength : ∀ value ∈ left.headers.getAll "content-length",
    value = .ofText (toString sent.length)
  single : (left.headers.getAll "transfer-encoding").length ≤ 1
  bodiless : Bodiless left.status → ∀ value ∈ left.headers.getAll "transfer-encoding",
    ∃ value' ∈ came.headers.getAll "transfer-encoding", SameCoding value' value

/-- The filter leaves no Content-Length. -/
theorem filtered_contentLength (header : ResponseHeader) :
    (filtered header).headers.getAll "content-length" = [] := by
  have name : HeaderMap.headerName "content-length" = "content-length" := by decide
  rw [filtered_getAll]
  simp [name]

/-- The filter leaves one Transfer-Encoding. -/
theorem filtered_transferEncoding (header : ResponseHeader) :
    (filtered header).headers.getAll "transfer-encoding" = [.ofText "chunked"] := by
  have name : HeaderMap.headerName "transfer-encoding" = "transfer-encoding" := by decide
  rw [filtered_getAll]
  simp [name]

/-- Only a Transfer-Encoding that is new can break the framing, whatever the body is. -/
theorem wellFramed_iff (header : ResponseHeader) (sent : Bytes) :
    WellFramed header (filtered header) sent ↔ (Bodiless header.status →
      ∃ value ∈ header.headers.getAll "transfer-encoding",
        SameCoding value (.ofText "chunked")) := by
  constructor
  · intro framed bodiless
    have kept := framed.bodiless ((filtered_status header).symm ▸ bodiless)
    rw [filtered_transferEncoding] at kept
    exact kept _ (List.mem_singleton_self _)
  · intro came
    refine ⟨.inl (filtered_contentLength header), ?_, ?_, fun bodiless => ?_⟩
    · rw [filtered_contentLength]
      simp
    · rw [filtered_transferEncoding]
      rfl
    · rw [filtered_transferEncoding]
      intro value mem
      obtain rfl := List.mem_singleton.mp mem
      exact came (filtered_status header ▸ bodiless)

/-- The body filter returns on every body. -/
theorem exists_run {serde : SerdeJson} (nonempty : serde.fromSlice [] = none)
    (total : ∀ v, ∃ data, serde.toWriter v = some data) (header : ResponseHeader)
    (init : List (Option Bytes)) (last : Option Bytes) :
    ∃ left ctx, runBody serde (responseCtx header) (calls init last) = .ok (left, ctx) := by
  by_cases untouched : Untouched serde (responseCtx header).respContentType
      (joined (init ++ [last]))
  · obtain ⟨ctx, run, -⟩ := run_untouched untouched
    exact ⟨_, ctx, run⟩
  · simp only [Untouched, not_forall] at untouched
    obtain ⟨c, contentType, json, parsed⟩ := untouched
    obtain ⟨v, parsed⟩ := Option.ne_none_iff_exists'.mp parsed
    obtain ⟨data, written⟩ := total (tag v)
    obtain ⟨ctx, run, -⟩ := run_rewritten nonempty contentType json parsed written
    exact ⟨_, ctx, run⟩

/-- A response that comes in with any fields, their names in any spelling. -/
def received (status : UInt16) (fields : List (String × HeaderValue)) : ResponseHeader :=
  ⟨status, .ofFields fields⟩

/-- A response of any status, with any fields and with any body in any chunks, leaves
both filters well framed if and only if its status is not one without a body or a field
has the chunked encoding. -/
theorem framing_iff {serde : SerdeJson} (nonempty : serde.fromSlice [] = none)
    (total : ∀ v, ∃ data, serde.toWriter v = some data) (status : UInt16)
    (fields : List (String × HeaderValue)) (init : List (Option Bytes)) (last : Option Bytes) :
    ∃ left ctx, runBody serde (responseCtx (received status fields)) (calls init last) =
        .ok (left, ctx) ∧
      (WellFramed (received status fields) (filtered (received status fields)) (joined left) ↔
        (Bodiless status → ∃ field ∈ fields,
          HeaderMap.headerName field.1 = "transfer-encoding" ∧
            SameCoding field.2 (.ofText "chunked"))) := by
  obtain ⟨left, ctx, run⟩ := exists_run nonempty total (received status fields) init last
  have name : HeaderMap.headerName "transfer-encoding" = "transfer-encoding" := by decide
  refine ⟨left, ctx, run, (wellFramed_iff _ _).trans (imp_congr_right fun _ => ?_)⟩
  simp only [received, HeaderMap.mem_getAll_ofFields, name]
  constructor
  · rintro ⟨value, ⟨field, mem, named, rfl⟩, same⟩
    exact ⟨field, mem, named, same⟩
  · rintro ⟨field, mem, named, same⟩
    exact ⟨field.2, ⟨field, mem, named, rfl⟩, same⟩

/-- A response with a length that is not kept, and a body in two chunks. -/
theorem framing_iff_ok :
    ∃ left ctx, runBody .reference (responseCtx (received 200 [("Content-LENGTH", .ofText "2")]))
        (calls [some [104]] (some [105])) = .ok (left, ctx) ∧
      WellFramed (received 200 [("Content-LENGTH", .ofText "2")])
        (filtered (received 200 [("Content-LENGTH", .ofText "2")])) (joined left) := by
  obtain ⟨left, ctx, run, framed⟩ := framing_iff SerdeJson.reference_documented.fromSlice_nil
    (fun _ => ⟨_, rfl⟩) 200 [("Content-LENGTH", .ofText "2")] [some [104]] (some [105])
  exact ⟨left, ctx, run, framed.mpr fun bodiless => absurd bodiless (by decide)⟩

/-- A response of status 204 without any fields leaves with a Transfer-Encoding. -/
theorem noContent_chunked :
    ¬∀ (status : UInt16) (fields : List (String × HeaderValue)) (init : List (Option Bytes))
        (last : Option Bytes) (left : List (Option Bytes)) (ctx : ProxyContext),
      runBody .reference (responseCtx (received status fields)) (calls init last) =
          .ok (left, ctx) →
        WellFramed (received status fields) (filtered (received status fields)) (joined left) := by
  intro framed
  have noContent := framed 204 [] [] none [none] _ rfl
  obtain ⟨value, came, -⟩ := (wellFramed_iff _ _).mp noContent (.inr rfl)
  cases came

end SimpleProxy

end SimplyProxy
