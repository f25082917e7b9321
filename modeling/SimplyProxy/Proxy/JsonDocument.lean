import SimplyProxy.Proxy.BodyFilter

/-!
# The document in a rewritten body

The filter parses a JSON body and writes it again, so the client gets another text.
`SameNumber` says what this does to a number: an integer that fits 64 bits stays as it
is, and any other number becomes some number.

1. `rewritten_document`: the client gets the marked document, with such numbers.
2. `document_preserved`: apart from the mark the client gets the same document, also
   when the text is refused by the parser and arrives with the last call.
3. `large_integer_changed`: an integer that does not fit 64 bits may change, also when
   doubles are rounded to the nearest.
-/

namespace SimplyProxy
open JsonText

/-! ## Numbers -/

/-- What becomes of a number literal. -/
def SameNumber (l l' : Lit) : Prop := Fits64 l → l'.value = l.value

/-- Parsing and writing a number. -/
theorem sameNumber_of_held {l l' : Lit} {n : Number} (held : HoldsNumber l n)
    (printed : PrintsNumber n l') : SameNumber l l' := by
  intro fits
  cases held with
  | posInt int value =>
    cases printed with
    | posInt value' => exact value'.trans value.symm
  | negInt int value =>
    cases printed with
    | negInt value' => exact value'.trans value.symm
  | negZero int value zero =>
    cases printed with
    | float zero' => exact (zero' zero).trans value.symm
  | float large => exact absurd fits large

/-! ## Documents -/

/-- The documents differ in the mark at most, and in numbers that are no integers of 64 bits. -/
def SameDocument (d d' : Doc) : Prop := DocTree.Rel SameNumber (tagTree d.tree) (tagTree d'.tree)

theorem SameDocument.refl (d : Doc) : SameDocument d d := DocTree.Rel.refl (fun _ _ => rfl) _

/-- The text that is written for the marked value is the marked document. -/
theorem written_tagged {serde : SerdeJson} (documented : serde.Documented) {bytes : Bytes} {d : Doc}
    (text : read bytes = some d) {v : Value} (parsed : serde.fromSlice bytes = some v) :
    ∃ data d', serde.toWriter (tag v) = some data ∧ read data = some d' ∧
      DocTree.Rel SameNumber (tagTree d.tree) d'.tree := by
  obtain ⟨d₀, text₀, held⟩ := documented.parses bytes v parsed
  obtain rfl : d = d₀ := Option.some.inj (text.symm.trans text₀)
  obtain ⟨data, d', written, text', printed⟩ := documented.writes (tag v)
  refine ⟨data, d', written, text', ?_⟩
  rw [tag_tree] at printed
  refine DocTree.Rel.comp ?_ (tagTree_rel held) printed
  exact fun _ _ _ => sameNumber_of_held

namespace SimpleProxy

variable {serde : SerdeJson} {header : ResponseHeader} {c : String} {init : List (Option Bytes)}
  {last : Option Bytes} {d : Doc}

/-- The client gets the marked document, however its text was cut. -/
theorem rewritten_document (documented : serde.Documented)
    (contentType : (responseCtx header).respContentType = some c) (json : isJson c = true)
    (text : read (joined (init ++ [last])) = some d) {v : Value}
    (parsed : serde.fromSlice (joined (init ++ [last])) = some v) :
    ∃ bodies ctx d', runBody serde (responseCtx header) (calls init last) = .ok (bodies, ctx) ∧
      read (joined bodies) = some d' ∧ DocTree.Rel SameNumber (tagTree d.tree) d'.tree := by
  obtain ⟨data, d', written, text', same⟩ := written_tagged documented text parsed
  obtain ⟨ctx', run, -⟩ :=
    run_rewritten documented.fromSlice_nil contentType json parsed written
  refine ⟨_, ctx', d', run, ?_, same⟩
  simpa [joined_append] using text'

/-- Apart from the mark and from numbers that are no integers of 64 bits, the client gets the
document that came in. A text that the parser refuses has to arrive with the last
call. -/
theorem document_preserved (documented : serde.Documented)
    (contentType : (responseCtx header).respContentType = some c) (json : isJson c = true)
    (text : read (joined (init ++ [last])) = some d)
    (whole : serde.fromSlice (joined (init ++ [last])) = none → joined init = []) :
    ∃ bodies ctx d', runBody serde (responseCtx header) (calls init last) = .ok (bodies, ctx) ∧
      read (joined bodies) = some d' ∧ SameDocument d d' := by
  cases parsed : serde.fromSlice (joined (init ++ [last])) with
  | none =>
    -- refused: all bytes came with the last call, which leaves them as they are
    have untouched : Untouched serde (responseCtx header).respContentType
        (joined (init ++ [last])) := fun _ _ _ => parsed
    obtain ⟨ctx', run, -⟩ := run_untouched untouched
    refine ⟨_, ctx', d, run, ?_, .refl d⟩
    rw [joined_append, whole parsed] at text
    simpa [joined_append] using text
  | some v =>
    obtain ⟨bodies, ctx', d', run, text', same⟩ :=
      rewritten_document documented contentType json text parsed
    -- marking both sides once more hides that only one of them was marked
    refine ⟨bodies, ctx', d', run, text', ?_⟩
    have marked := tagTree_rel same
    rwa [tagTree_tagTree] at marked

/-- The document `{"n":[7,null]}`. -/
def small : Doc := .obj [("n", .arr [.num ⟨false, 7, [], none⟩, .null])]

/-- Its text in two calls. -/
theorem document_preserved_small :
    ∃ bodies ctx d', runBody .reference (responseCtx jsonHeader)
          (calls [some (encode "\x7b\"n\":[7,")] (some (encode "null]\x7d"))) = .ok (bodies, ctx) ∧
        read (joined bodies) = some d' ∧ SameDocument small d' := by
  have cut : joined ([some (encode "\x7b\"n\":[7,")] ++ [some (encode "null]\x7d")]) =
      write small := by
    decide +kernel
  have text : read (joined ([some (encode "\x7b\"n\":[7,")] ++ [some (encode "null]\x7d")])) =
      some small := by
    rw [cut, read_write]
  refine document_preserved SerdeJson.reference_documented (c := "application/json") (by decide)
    (by decide) text fun refused => ?_
  simp only [SerdeJson.reference, text, Option.bind_some] at refused
  cases refused

/-! ## Large integers -/

mutual
/-- No object of the document has two members with one name. -/
def distinctNames : Doc → Prop
  | .arr items => itemsDistinct items
  | .obj members => (members.map Prod.fst).Nodup ∧ membersDistinct members
  | _ => True

def itemsDistinct : List Doc → Prop
  | [] => True
  | d :: rest => distinctNames d ∧ itemsDistinct rest

def membersDistinct : List (String × Doc) → Prop
  | [] => True
  | (_, d) :: rest => distinctNames d ∧ membersDistinct rest
end

/-- The document `{"id":18446744073709551617}`. -/
def largeId : Doc := .obj [("id", .num ⟨false, 18446744073709551617, [], none⟩)]

/-- What the client gets: `{"id":1.8446744073709552e+19,"x-simple-proxy":"v0.1"}`. -/
def largeIdLeft : Doc :=
  .obj [
    ("id", .num ⟨false, 1, [8, 4, 4, 6, 7, 4, 4, 0, 7, 3, 7, 0, 9, 5, 5, 2].map digit, some 19⟩),
    ("x-simple-proxy", .str "v0.1")]

/-- Integers beyond 64 bits are not kept. -/
theorem large_integer_changed :
    ¬∀ serde : SerdeJson, serde.Documented → serde.RoundsToNearest →
      ∀ (header : ResponseHeader) (c : String) (init : List (Option Bytes)) (last : Option Bytes)
        (d : Doc), (responseCtx header).respContentType = some c → isJson c = true →
          read (joined (init ++ [last])) = some d → distinctNames d →
          ∃ bodies ctx d', runBody serde (responseCtx header) (calls init last) =
              .ok (bodies, ctx) ∧ read (joined bodies) = some d' ∧
            DocTree.Rel (fun l l' => l.isInt → l'.value = l.value) (tagTree d.tree)
              (tagTree d'.tree) := by
  intro kept
  have text : read (joined ([] ++ [some (write largeId)])) = some largeId := by
    simp [read_write]
  obtain ⟨bodies, ctx, d', run, text', same⟩ :=
    kept .reference SerdeJson.reference_documented SerdeJson.reference_roundsToNearest jsonHeader
      "application/json" [] (some (write largeId)) largeId (by decide) (by decide) text
      (by simp [distinctNames, membersDistinct, largeId])
  have left : (runBody .reference (responseCtx jsonHeader) (calls [] (some (write largeId)))).map
      (fun r => joined r.1) = .ok (write largeIdLeft) := by
    decide +kernel
  rw [run] at left
  obtain left : joined bodies = write largeIdLeft := Except.ok.inj left
  rw [left, read_write] at text'
  obtain rfl := Option.some.inj text'
  cases same with
  | obj _ related =>
    have number := related "id" _ _ rfl rfl
    cases number with
    | num equal =>
      have := equal ⟨rfl, rfl⟩
      norm_num [Lit.value, Lit.digits, Lit.shift, digit] at this

end SimpleProxy

end SimplyProxy
