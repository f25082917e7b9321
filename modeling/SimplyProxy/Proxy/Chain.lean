import SimplyProxy.Proxy.BodyFilter

/-!
# Two proxies in a chain

A response that has come through the proxy may come through another one. The header
filter sets what it set before, and the body filter marks what it marked before.

`chain_acts_as_one`: behind a second pass a JSON response has the same headers and the
same body as behind the first, however the body is cut on the way.

Header maps are compared by the values of each name: the second pass inserts its
headers anew, which may move them behind others.
-/

namespace SimplyProxy
namespace SimpleProxy
open JsonText (encode)

/-! ## The header filter -/

/-- The header that the filter leaves. -/
def filtered (header : ResponseHeader) : ResponseHeader := (upstreamResponseFilter header newCtx).1

/-- The values that the filter leaves for a header name: it drops those of one name, sets
those of two, and sets those of `server` when there are none. -/
theorem filtered_getAll (header : ResponseHeader) (name : String) :
    (filtered header).headers.getAll name =
      if HeaderMap.headerName name = "server" ∧ header.headers.getAll "server" = [] then
        [.ofText "SimpleProxy/0.1"]
      else if HeaderMap.headerName name = "x-simple-proxy" then [.ofText "v0.1"]
      else if HeaderMap.headerName name = "transfer-encoding" then [.ofText "chunked"]
      else if HeaderMap.headerName name = "content-length" then []
      else header.headers.getAll name := by
  have contentLength : HeaderMap.headerName "Content-Length" = "content-length" := by decide
  have transferEncoding : HeaderMap.headerName "transfer-encoding" = "transfer-encoding" := by
    decide
  have mark : HeaderMap.headerName "x-simple-proxy" = "x-simple-proxy" := by decide
  have server : HeaderMap.headerName "server" = "server" := by decide
  -- what the first three steps leave
  let mid := ((header.headers.remove "Content-Length").insert "transfer-encoding"
    (.ofText "chunked")).insert "x-simple-proxy" (.ofText "v0.1")
  have midValues : ∀ name, mid.getAll name =
      if HeaderMap.headerName name = "x-simple-proxy" then [.ofText "v0.1"]
      else if HeaderMap.headerName name = "transfer-encoding" then [.ofText "chunked"]
      else if HeaderMap.headerName name = "content-length" then []
      else header.headers.getAll name := by
    intro name
    simp only [mid, HeaderMap.getAll_insert, HeaderMap.getAll_remove, contentLength,
      transferEncoding, mark]
  have midServer : mid.getAll "server" = header.headers.getAll "server" := by
    rw [midValues, server]
    simp
  have result : (filtered header).headers = if mid.containsKey "server" = true then mid
      else mid.insert "server" (.ofText "SimpleProxy/0.1") := by
    show ResponseHeader.headers (if mid.containsKey "server" = true then _ else _) = _
    split <;> rfl
  have present := mid.containsKey_iff "server"
  rw [midServer] at present
  rw [result]
  split
  · next has =>
    simp only [present.mp has, and_false, if_false]
    exact midValues name
  · next lacks =>
    have absent : header.headers.getAll "server" = [] := not_ne_iff.mp (mt present.mpr lacks)
    simp only [absent, and_true, HeaderMap.getAll_insert, server, midValues]

/-- The filter leaves the values of all other names as they came, and those of `server`
when there are any. -/
theorem filtered_unchanged (header : ResponseHeader) (name : String)
    (contentLength : HeaderMap.headerName name ≠ "content-length")
    (transferEncoding : HeaderMap.headerName name ≠ "transfer-encoding")
    (mark : HeaderMap.headerName name ≠ "x-simple-proxy")
    (server : HeaderMap.headerName name = "server" → header.headers.getAll "server" ≠ []) :
    (filtered header).headers.getAll name = header.headers.getAll name := by
  have kept : ¬(HeaderMap.headerName name = "server" ∧ header.headers.getAll "server" = []) :=
    fun both => server both.1 both.2
  rw [filtered_getAll]
  simp only [kept, mark, transferEncoding, contentLength, if_false]

theorem filtered_server_ne_nil (header : ResponseHeader) :
    (filtered header).headers.getAll "server" ≠ [] := by
  have server : HeaderMap.headerName "server" = "server" := by decide
  rw [filtered_getAll, server]
  by_cases absent : header.headers.getAll "server" = [] <;> simp [absent]

/-- Filtering again leaves the same headers. -/
theorem filtered_filtered (header : ResponseHeader) :
    (filtered (filtered header)).headers.Same (filtered header).headers := by
  intro name
  have kept := filtered_server_ne_nil header
  rw [filtered_getAll (filtered header)]
  simp only [kept, and_false, if_false]
  rw [filtered_getAll header]
  split
  · next mark => simp [mark]
  · split
    · next transferEncoding => simp [transferEncoding]
    · split
      · next contentLength => simp [contentLength]
      · rfl

theorem filtered_status (header : ResponseHeader) : (filtered header).status = header.status := by
  show ResponseHeader.status (if _ then _ else _) = _
  split <;> rfl

/-! ## The content type -/

theorem responseCtx_contentType (header : ResponseHeader) : (responseCtx header).respContentType =
    (header.headers.getAll "content-type").head?.bind HeaderValue.toStr := by
  rw [← HeaderMap.get_eq_head?]
  rfl

/-- The second pass sees the content type that the first one saw. -/
theorem filtered_contentType (header : ResponseHeader) :
    (responseCtx (filtered header)).respContentType = (responseCtx header).respContentType := by
  have name : HeaderMap.headerName "content-type" = "content-type" := by decide
  have same := filtered_unchanged header "content-type" (by simp [name]) (by simp [name])
    (by simp [name]) (by simp [name])
  rw [responseCtx_contentType, responseCtx_contentType, same]

/-! ## Both filters -/

/-- A JSON response, whose body the parser accepts, goes through both filters, and then
again through both with a new context, with its bytes cut into any chunks: the headers
and the bytes are those of the first pass. The first pass leaves all headers alone but
the ones it is about. -/
theorem chain_acts_as_one {serde : SerdeJson} (nonempty : serde.fromSlice [] = none)
    (total : ∀ v, ∃ data, serde.toWriter v = some data) (header : ResponseHeader) {c : String}
    (contentType : (responseCtx header).respContentType = some c) (json : isJson c = true)
    (init : List (Option Bytes)) (last : Option Bytes) {v : Value}
    (parsed : serde.fromSlice (joined (init ++ [last])) = some v)
    (readsBack : ∀ data, serde.toWriter (tag v) = some data → serde.fromSlice data = some (tag v)) :
    ∃ bodies ctx, runBody serde (responseCtx header) (calls init last) = .ok (bodies, ctx) ∧
      (∀ init' last', joined (init' ++ [last']) = joined bodies → ∃ bodies' ctx',
        runBody serde (responseCtx (filtered header)) (calls init' last') = .ok (bodies', ctx') ∧
          joined bodies' = joined bodies) ∧
      (filtered (filtered header)).status = (filtered header).status ∧
      (filtered (filtered header)).headers.Same (filtered header).headers ∧
      ∀ name, HeaderMap.headerName name ≠ "content-length" →
        HeaderMap.headerName name ≠ "transfer-encoding" →
        HeaderMap.headerName name ≠ "x-simple-proxy" →
        (HeaderMap.headerName name = "server" → header.headers.getAll "server" ≠ []) →
          (filtered header).headers.getAll name = header.headers.getAll name := by
  obtain ⟨data, written⟩ := total (tag v)
  obtain ⟨ctx, run, -⟩ := run_rewritten nonempty contentType json parsed written
  refine ⟨_, ctx, run, fun init' last' same => ?_, filtered_status _, filtered_filtered header,
    filtered_unchanged header⟩
  have sent : joined (List.replicate init.length none ++ [some data]) = data := by
    simp [joined_append]
  rw [sent] at same ⊢
  -- the second parser reads the marked document, and marking it again changes nothing
  have parsed' : serde.fromSlice (joined (init' ++ [last'])) = some (tag v) :=
    same ▸ readsBack data written
  have written' : serde.toWriter (tag (tag v)) = some data := (tag_tag v).symm ▸ written
  obtain ⟨ctx', run', -⟩ := run_rewritten nonempty
    ((filtered_contentType header).trans contentType) json parsed' written'
  exact ⟨_, ctx', run', by simp [joined_append]⟩

/-- A JSON response with two values for one header. -/
def repeatedHeader : ResponseHeader :=
  ⟨200, ⟨[("server", .ofText "a"), ("content-type", .ofText "application/json"),
    ("server", .ofText "b")]⟩⟩

/-- An object in an array, in two chunks. -/
theorem chain_acts_as_one_array :
    ∃ bodies ctx, runBody .reference (responseCtx repeatedHeader)
        (calls [some (encode "[\x7b")] (some (encode "\x7d]"))) = .ok (bodies, ctx) ∧
      (∀ init' last', joined (init' ++ [last']) = joined bodies → ∃ bodies' ctx',
        runBody .reference (responseCtx (filtered repeatedHeader)) (calls init' last') =
            .ok (bodies', ctx') ∧
          joined bodies' = joined bodies) ∧
      (filtered (filtered repeatedHeader)).status = (filtered repeatedHeader).status ∧
      (filtered (filtered repeatedHeader)).headers.Same (filtered repeatedHeader).headers ∧
      ∀ name, HeaderMap.headerName name ≠ "content-length" →
        HeaderMap.headerName name ≠ "transfer-encoding" →
        HeaderMap.headerName name ≠ "x-simple-proxy" →
        (HeaderMap.headerName name = "server" → repeatedHeader.headers.getAll "server" ≠ []) →
          (filtered repeatedHeader).headers.getAll name = repeatedHeader.headers.getAll name := by
  have contentType : (responseCtx repeatedHeader).respContentType = some "application/json" := by
    decide
  have parsed : SerdeJson.reference.fromSlice
      (joined ([some (encode "[\x7b")] ++ [some (encode "\x7d]")])) =
        some (.array [.object []]) := rfl
  exact chain_acts_as_one SerdeJson.reference_documented.fromSlice_nil (fun v => ⟨_, rfl⟩)
    repeatedHeader contentType (by decide) _ _ parsed fun _ =>
      SerdeJson.reference_readsBack rfl

end SimpleProxy

end SimplyProxy
