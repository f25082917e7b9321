import Mathlib.Data.List.Induction
import SimplyProxy.Proxy.SerdeReference
import SimplyProxy.Proxy.SimpleProxy

/-!
# A response body in chunks

`upstream_response_body_filter` is called once for each chunk of a response body,
with the end of the stream announced by the last call or, when trailers follow, by
none. The theorems are about every way of cutting a body into calls. The invariant
is `Buffered`: what the context holds is everything that came in so far.

1. `rewritten_once`: a JSON body is rewritten and leaves with the last call, however
   it was cut.
2. `passThrough_lossless_iff`: a body that is not rewritten leaves unchanged exactly
   when the calls before the last one brought no bytes. The bytes they bring are
   buffered and never sent.
3. `trailers_flushed_iff`: a body that is followed by trailers leaves as it should
   exactly when it has no chunk at all. No trailer callback sends the buffer.
-/

namespace SimplyProxy
namespace SimpleProxy
open JsonText (encode)

/-! ## Sequences of calls -/

/-- The bytes of a sequence of bodies, in order. -/
def joined (bodies : List (Option Bytes)) : Bytes := bodies.flatMap fun body => body.getD []

theorem joined_append (bodies bodies' : List (Option Bytes)) :
    joined (bodies ++ bodies') = joined bodies ++ joined bodies' := by
  simp [joined]

@[simp] theorem joined_singleton (body : Option Bytes) : joined [body] = body.getD [] := by
  simp [joined]

@[simp] theorem joined_replicate_none (n : Nat) : joined (List.replicate n none) = [] := by
  simp [joined]

/-- Calls the filter on each body in turn, up to the first error. Gives the bodies
that the calls leave. -/
def runBody (serde : SerdeJson) (ctx : ProxyContext) :
    List (Option Bytes × Bool) → Except ProxyError (List (Option Bytes) × ProxyContext)
  | [] => .ok ([], ctx)
  | (body, endOfStream) :: rest =>
    let reply := upstreamResponseBodyFilter serde body endOfStream ctx
    match reply.outcome with
    | .error e => .error e
    | .ok _ => (runBody serde reply.ctx rest).map fun r => (reply.body :: r.1, r.2)

/-- The calls for a body whose last chunk ends the stream. -/
def calls (init : List (Option Bytes)) (last : Option Bytes) : List (Option Bytes × Bool) :=
  init.map (fun body => (body, false)) ++ [(last, true)]

/-- The context in which the body of a response is filtered. -/
def responseCtx (header : ResponseHeader) : ProxyContext := (upstreamResponseFilter header newCtx).2

/-! ## The buffer -/

/-- The context holds the bytes of all bodies that came in. It holds no buffer at
all when there was no body. -/
structure Buffered (contentType : Option String) (bodies : List (Option Bytes))
    (ctx : ProxyContext) : Prop where
  contentType : ctx.respContentType = contentType
  body : ctx.respBody.getD [] = joined bodies
  absent : ctx.respBody = none ↔ ∀ body ∈ bodies, body = none

theorem buffered_responseCtx (header : ResponseHeader) :
    Buffered (responseCtx header).respContentType [] (responseCtx header) :=
  ⟨rfl, rfl, by simp [responseCtx, upstreamResponseFilter, newCtx]⟩

variable {contentType : Option String} {bodies : List (Option Bytes)} {ctx : ProxyContext}

/-- One call adds its body. -/
theorem Buffered.snoc (h : Buffered contentType bodies ctx) (body : Option Bytes) :
    Buffered contentType (bodies ++ [body]) (buffer body ctx) := by
  cases body with
  | none =>
    refine ⟨h.contentType, ?_, ?_⟩
    · simpa [buffer, joined_append] using h.body
    · simp only [buffer, h.absent, List.mem_append, List.mem_singleton]
      exact ⟨fun all b hb => hb.elim (all b) id, fun all b hb => all b (.inl hb)⟩
  | some bytes =>
    refine ⟨h.contentType, ?_, ?_⟩
    · simp [buffer, joined_append, h.body]
    · simp only [buffer, reduceCtorEq, false_iff, not_forall]
      exact ⟨some bytes, by simp, by simp⟩

/-- The context behind calls that do not end the stream. -/
def bufferAll (ctx : ProxyContext) (bodies : List (Option Bytes)) : ProxyContext :=
  bodies.foldl (fun ctx body => buffer body ctx) ctx

theorem buffered_bufferAll (header : ResponseHeader) (bodies : List (Option Bytes)) :
    Buffered (responseCtx header).respContentType bodies
      (bufferAll (responseCtx header) bodies) := by
  induction bodies using List.reverseRecOn with
  | nil => exact buffered_responseCtx header
  | append_singleton bodies body ih =>
    rw [bufferAll, List.foldl_append]
    exact ih.snoc body

/-- Calls that do not end the stream leave nothing and fill the buffer. -/
theorem runBody_unfinished (serde : SerdeJson) (ctx : ProxyContext) (bodies : List (Option Bytes))
    (rest : List (Option Bytes × Bool)) :
    runBody serde ctx (bodies.map (fun body => (body, false)) ++ rest) =
      (runBody serde (bufferAll ctx bodies) rest).map fun r =>
        (List.replicate bodies.length none ++ r.1, r.2) := by
  induction bodies generalizing ctx with
  | nil => cases h : runBody serde ctx rest <;> simp [bufferAll, h, Except.map]
  | cons body bodies ih =>
    have first : upstreamResponseBodyFilter serde body false ctx =
        ⟨.ok none, none, buffer body ctx⟩ := rfl
    simp only [List.map_cons, List.cons_append, runBody, first]
    rw [ih (buffer body ctx)]
    simp only [bufferAll, List.foldl_cons, List.length_cons, List.replicate_succ, List.cons_append]
    cases runBody serde (bodies.foldl (fun ctx body => buffer body ctx) (buffer body ctx)) rest <;>
      rfl

/-! ## The end of the stream -/

/-- The body is left as it came: its content type is absent or another one, or it
is not JSON. -/
def Untouched (serde : SerdeJson) (contentType : Option String) (body : Bytes) : Prop :=
  ∀ c, contentType = some c → isJson c = true → serde.fromSlice body = none

/-- The last call of a body that is not rewritten leaves its own bytes, and drops
the buffer. -/
theorem finish_untouched {serde : SerdeJson} {last : Option Bytes}
    (h : Buffered contentType bodies ctx)
    (untouched : Untouched serde contentType (joined (bodies ++ [last]))) :
    ∃ ctx', upstreamResponseBodyFilter serde last true ctx = ⟨.ok none, last, ctx'⟩ ∧
      ctx'.respBody = none := by
  have after := h.snoc last
  unfold upstreamResponseBodyFilter
  simp only [Bool.not_true, Bool.false_eq_true, if_false]
  cases stored : (buffer last ctx).respBody with
  | none => exact ⟨_, rfl, stored⟩
  | some respBody =>
    have body := after.body
    rw [stored, Option.getD_some] at body
    -- each of the three early returns leaves the last body alone
    rw [after.contentType]
    cases contentType with
    | none => exact ⟨_, rfl, rfl⟩
    | some c =>
      cases json : isJson c with
      | false => exact ⟨_, by simp [json]; rfl, rfl⟩
      | true =>
        have rejected := untouched c rfl json
        rw [← body] at rejected
        exact ⟨_, by simp [json, rejected]; rfl, rfl⟩

/-- The last call of a JSON body leaves the rewritten document, and empties the
buffer. -/
theorem finish_rewritten {serde : SerdeJson} (nonempty : serde.fromSlice [] = none)
    {last : Option Bytes} {c : String} (h : Buffered (some c) bodies ctx) (json : isJson c = true)
    {v : Value} (parsed : serde.fromSlice (joined (bodies ++ [last])) = some v) {data : Bytes}
    (written : serde.toWriter (tag v) = some data) :
    ∃ ctx', upstreamResponseBodyFilter serde last true ctx = ⟨.ok none, some data, ctx'⟩ ∧
      ctx'.respBody = none := by
  have after := h.snoc last
  have body := after.body
  unfold upstreamResponseBodyFilter
  simp only [Bool.not_true, Bool.false_eq_true, if_false]
  cases stored : (buffer last ctx).respBody with
  | none =>
    -- nothing came in, and nothing is no JSON text
    rw [stored, Option.getD_none] at body
    rw [← body, nonempty] at parsed
    cases parsed
  | some respBody =>
    rw [stored, Option.getD_some] at body
    rw [← body] at parsed
    exact ⟨_, by simp [after.contentType, json, parsed, written]; rfl, rfl⟩

/-! ## Bodies that are not rewritten -/

/-- Of a body that is not rewritten only the last chunk leaves. -/
theorem run_untouched {serde : SerdeJson} {header : ResponseHeader} {init : List (Option Bytes)}
    {last : Option Bytes}
    (untouched : Untouched serde (responseCtx header).respContentType (joined (init ++ [last]))) :
    ∃ ctx', runBody serde (responseCtx header) (calls init last) =
        .ok (List.replicate init.length none ++ [last], ctx') ∧ ctx'.respBody = none := by
  obtain ⟨ctx', final, emptied⟩ :=
    finish_untouched (buffered_bufferAll header init) untouched
  refine ⟨ctx', ?_, emptied⟩
  rw [calls, runBody_unfinished]
  simp [runBody, final, Except.map]

/-- A body that is not rewritten leaves as it came in if and only if the calls
before the last one bring no bytes. -/
theorem passThrough_lossless_iff (serde : SerdeJson) (header : ResponseHeader)
    (init : List (Option Bytes)) (last : Option Bytes)
    (untouched : Untouched serde (responseCtx header).respContentType (joined (init ++ [last]))) :
    ∃ bodies ctx, runBody serde (responseCtx header) (calls init last) = .ok (bodies, ctx) ∧
      (joined bodies = joined (init ++ [last]) ↔ joined init = []) := by
  obtain ⟨ctx', run, -⟩ := run_untouched untouched
  refine ⟨_, ctx', run, ?_⟩
  rw [joined_append, joined_append, joined_replicate_none]
  exact List.append_left_inj _ |>.trans eq_comm

/-- A body in one chunk, behind an empty one. -/
theorem passThrough_lossless_iff_oneChunk :
    ∃ bodies ctx, runBody .reference (responseCtx (.build 200)) (calls [none] (some [104, 105])) =
        .ok (bodies, ctx) ∧
      (joined bodies = [104, 105] ↔ joined [none] = []) :=
  passThrough_lossless_iff .reference (.build 200) [none] (some [104, 105]) fun _ h => by cases h

/-- The two chunks `h` and `i` of a response without content type: `h` is lost. -/
theorem passThrough_loses_chunk :
    ¬∀ (header : ResponseHeader) (init : List (Option Bytes)) (last : Option Bytes),
      Untouched .reference (responseCtx header).respContentType (joined (init ++ [last])) →
        ∃ bodies ctx,
          runBody .reference (responseCtx header) (calls init last) = .ok (bodies, ctx) ∧
          joined bodies = joined (init ++ [last]) := by
  intro lossless
  obtain ⟨bodies, ctx, run, same⟩ := lossless (.build 200) [some [104]] (some [105]) fun _ h => by
    cases h
  obtain ⟨rfl, -⟩ := Prod.mk.inj (Except.ok.inj run)
  exact absurd same (by decide)

/-! ## Bodies that are rewritten -/

/-- A JSON body leaves with the last call. -/
theorem run_rewritten {serde : SerdeJson} (nonempty : serde.fromSlice [] = none)
    {header : ResponseHeader} {c : String}
    (contentType : (responseCtx header).respContentType = some c) (json : isJson c = true)
    {init : List (Option Bytes)} {last : Option Bytes} {v : Value}
    (parsed : serde.fromSlice (joined (init ++ [last])) = some v) {data : Bytes}
    (written : serde.toWriter (tag v) = some data) :
    ∃ ctx', runBody serde (responseCtx header) (calls init last) =
        .ok (List.replicate init.length none ++ [some data], ctx') ∧ ctx'.respBody = none := by
  have buffered := buffered_bufferAll header init
  rw [contentType] at buffered
  obtain ⟨ctx', final, emptied⟩ := finish_rewritten nonempty buffered json parsed written
  refine ⟨ctx', ?_, emptied⟩
  rw [calls, runBody_unfinished]
  simp [runBody, final, Except.map]

/-- The calls before the last one of a JSON body leave nothing, and the last one
leaves the whole rewritten body. -/
theorem rewritten_once {serde : SerdeJson} (nonempty : serde.fromSlice [] = none)
    (total : ∀ v, ∃ data, serde.toWriter v = some data) (header : ResponseHeader) {c : String}
    (contentType : (responseCtx header).respContentType = some c) (json : isJson c = true)
    (init : List (Option Bytes)) (last : Option Bytes) {v : Value}
    (parsed : serde.fromSlice (joined (init ++ [last])) = some v) :
    ∃ data ctx, runBody serde (responseCtx header) (calls init last) =
        .ok (List.replicate init.length none ++ [some data], ctx) ∧
      serde.toWriter (tag v) = some data ∧ Tagged v (tag v) ∧ ctx.respBody = none := by
  obtain ⟨data, written⟩ := total (tag v)
  obtain ⟨ctx', run, emptied⟩ := run_rewritten nonempty contentType json parsed written
  exact ⟨data, ctx', run, written, tag_tagged v, emptied⟩

/-- A response header with the content type of JSON. -/
def jsonHeader : ResponseHeader :=
  (ResponseHeader.build 200).insertHeader "content-type" (.ofText "application/json")

/-- The body `[{}]`, in three calls. -/
theorem rewritten_once_array :
    ∃ data ctx, runBody .reference (responseCtx jsonHeader)
          (calls [some (encode "[\x7b"), none] (some (encode "\x7d]"))) =
        .ok (List.replicate 2 none ++ [some data], ctx) ∧
      SerdeJson.reference.toWriter (tag (.array [.object []])) = some data ∧
      Tagged (.array [.object []]) (tag (.array [.object []])) ∧ ctx.respBody = none :=
  rewritten_once SerdeJson.reference_documented.fromSlice_nil (fun v => ⟨_, rfl⟩) jsonHeader
    (c := "application/json") (by decide) (by decide) [some (encode "[\x7b"), none]
    (some (encode "\x7d]")) (by rfl)

/-! ## Trailers -/

/-- A body that trailers follow: no call ends the stream. The client gets what the
calls leave and what the trailer callback returns. -/
def withTrailers (serde : SerdeJson) (ctx : ProxyContext) (bodies : List (Option Bytes))
    (trailers : HeaderMap) : Except ProxyError (Bytes × ProxyContext) :=
  match runBody serde ctx (bodies.map fun body => (body, false)) with
  | .error e => .error e
  | .ok (left, ctx) =>
    match upstreamResponseTrailerFilter trailers ctx with
    | (.error e, _) => .error e
    | (.ok (), trailers, ctx) =>
      match responseTrailerFilter trailers ctx with
      | (.error e, _) => .error e
      | (.ok bytes, _, ctx) => .ok (joined left ++ bytes.getD [], ctx)

/-- The same bytes as the only chunk of a body without trailers. -/
def atOnce (serde : SerdeJson) (ctx : ProxyContext) (bodies : List (Option Bytes)) :
    Except ProxyError (Bytes × ProxyContext) :=
  (runBody serde ctx (calls [] (some (joined bodies)))).map fun r => (joined r.1, r.2)

/-- Nothing of a body with trailers is sent; it stays in the buffer. -/
theorem withTrailers_eq (serde : SerdeJson) (ctx : ProxyContext) (bodies : List (Option Bytes))
    (trailers : HeaderMap) :
    withTrailers serde ctx bodies trailers = .ok ([], bufferAll ctx bodies) := by
  have run := runBody_unfinished serde ctx bodies []
  simp only [List.append_nil, runBody, Except.map] at run
  rw [withTrailers, run]
  simp [upstreamResponseTrailerFilter, responseTrailerFilter]

/-- A body with trailers is delivered, and the buffer emptied, if and only if it has
no chunk. -/
theorem trailers_flushed_iff {serde : SerdeJson} (nonempty : serde.fromSlice [] = none)
    (header : ResponseHeader) (bodies : List (Option Bytes)) (trailers : HeaderMap) :
    (∃ bytes ctx ctx', withTrailers serde (responseCtx header) bodies trailers = .ok (bytes, ctx) ∧
        atOnce serde (responseCtx header) bodies = .ok (bytes, ctx') ∧ ctx.respBody = none) ↔
      ∀ body ∈ bodies, body = none := by
  have buffered := buffered_bufferAll header bodies
  rw [← buffered.absent]
  simp only [withTrailers_eq]
  constructor
  · rintro ⟨bytes, ctx, ctx', stayed, -, emptied⟩
    obtain ⟨-, rfl⟩ := Prod.mk.inj (Except.ok.inj stayed)
    exact emptied
  · -- without a chunk both ways send nothing, and there is no buffer to send
    intro absent
    have noBytes : joined bodies = [] := by
      rw [← buffered.body, absent, Option.getD_none]
    have untouched : Untouched serde (responseCtx header).respContentType
        (joined ([] ++ [some (joined bodies)])) := by
      intro c _ _
      simpa [noBytes] using nonempty
    obtain ⟨ctx', run, -⟩ := run_untouched untouched
    refine ⟨[], _, ctx', rfl, ?_, absent⟩
    rw [atOnce, run]
    simp [Except.map, noBytes]

/-- A stream of two calls without a chunk. -/
theorem trailers_flushed_iff_noChunk :
    ∃ bytes ctx ctx',
      withTrailers .reference (responseCtx jsonHeader) [none, none] ⟨[]⟩ = .ok (bytes, ctx) ∧
        atOnce .reference (responseCtx jsonHeader) [none, none] = .ok (bytes, ctx') ∧
        ctx.respBody = none :=
  (trailers_flushed_iff SerdeJson.reference_documented.fromSlice_nil jsonHeader [none, none]
    ⟨[]⟩).mpr (by simp)

/-- The chunk `hi` before trailers: it is never sent. -/
theorem trailers_lose_body :
    ¬∀ (header : ResponseHeader) (bodies : List (Option Bytes)) (trailers : HeaderMap),
      bodies ≠ [] → ∃ bytes ctx ctx',
        withTrailers .reference (responseCtx header) bodies trailers = .ok (bytes, ctx) ∧
          atOnce .reference (responseCtx header) bodies = .ok (bytes, ctx') ∧
          ctx.respBody = none := by
  intro delivered
  obtain ⟨bytes, ctx, ctx', stayed, sent, -⟩ :=
    delivered (.build 200) [some [104, 105]] ⟨[]⟩ (by simp)
  rw [withTrailers_eq] at stayed
  obtain ⟨rfl, -⟩ := Prod.mk.inj (Except.ok.inj stayed)
  have atOnce_eq : (atOnce .reference (responseCtx (.build 200)) [some [104, 105]]).map Prod.fst =
      .ok [104, 105] := rfl
  rw [sent] at atOnce_eq
  cases Except.ok.inj atOnce_eq

end SimpleProxy

end SimplyProxy
