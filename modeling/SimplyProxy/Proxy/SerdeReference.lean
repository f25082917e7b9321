import SimplyProxy.Base.JsonRoundTrip
import SimplyProxy.Proxy.Json

/-!
# A parser and a writer of JSON values

A `SerdeJson` that can be run. It reads every JSON text whose numbers are in range, each
double as the nearest one, and writes doubles with the fewest digits that read back as the
same double. `serde_json` writes them so, but it does not read every one as the nearest.

1. `reference_documented`: it does what is documented of `serde_json`.
2. `reference_roundsToNearest`: and its doubles are the nearest ones.
-/

namespace SimplyProxy
open JsonText

/-! ## Numbers -/

/-- The double nearest to a literal, if it is in range. `serde_json` may take another one. -/
def litNearest (l : Lit) : Option Binary64 :=
  if 0 ≤ l.shift then Binary64.nearest l.neg (l.digits * 10 ^ l.shift.toNat) 1
  else Binary64.nearest l.neg l.digits (10 ^ (-l.shift).toNat)

theorem lit_value (l : Lit) : l.value = Binary64.signed l.neg (l.digits * 10 ^ l.shift) := by
  unfold Lit.value Binary64.signed
  cases l.neg <;> simp

theorem litNearest_isNearest {l : Lit} {f : Binary64} (h : litNearest l = some f) :
    f.IsNearest l.value := by
  unfold litNearest at h
  rw [lit_value]
  split at h
  · next nonneg =>
    have nearest := Binary64.nearest_isNearest one_pos h
    obtain ⟨k, hk⟩ := Int.eq_ofNat_of_zero_le nonneg
    simpa [hk] using nearest
  · next neg =>
    have nearest := Binary64.nearest_isNearest (Nat.pow_pos (by decide)) h
    obtain ⟨k, hk⟩ := Int.eq_ofNat_of_zero_le (show 0 ≤ -l.shift by omega)
    obtain hk : l.shift = -(k : ℤ) := by omega
    simpa [hk, div_eq_mul_inv] using nearest

/-- The value of an integer literal. -/
theorem lit_value_int {l : Lit} (h : l.isInt) :
    l.value = ((if l.neg then -(l.int : ℤ) else l.int : ℤ) : ℚ) := by
  have digits : l.digits = l.int := by simp [Lit.digits, h.1]
  have shift : l.shift = 0 := by simp [Lit.shift, h.1, h.2]
  rw [lit_value, digits, shift]
  cases l.neg <;> simp [Binary64.signed]

/-- A number as it is parsed. -/
def ofLit (l : Lit) : Option Number :=
  if l.isInt ∧ l.neg = false ∧ l.int < 2 ^ 64 then some (.posInt (.ofNat l.int))
  else if l.isInt ∧ l.neg = true ∧ 0 < l.int ∧ l.int ≤ 2 ^ 63 then
    some (.negInt (.ofInt (-l.int)))
  else (litNearest l).map .float

/-- An integer that fits 64 bits is held as an integer, unless it is `-0`. -/
theorem lit_value_zero {l : Lit} (fits : Fits64 l)
    (notPos : ¬(l.isInt ∧ l.neg = false ∧ l.int < 2 ^ 64))
    (notNeg : ¬(l.isInt ∧ l.neg = true ∧ 0 < l.int ∧ l.int ≤ 2 ^ 63)) : l.value = 0 := by
  obtain ⟨int, low, high⟩ := fits
  rw [lit_value_int int] at low high ⊢
  have low : -2 ^ 63 ≤ (if l.neg then -(l.int : ℤ) else l.int) := by exact_mod_cast low
  have high : (if l.neg then -(l.int : ℤ) else l.int) < 2 ^ 64 := by exact_mod_cast high
  cases sign : l.neg with
  | false =>
    simp only [sign, Bool.false_eq_true, if_false] at high
    exact absurd ⟨int, sign, by omega⟩ notPos
  | true =>
    simp only [sign, if_true] at low
    by_cases none : l.int = 0
    · simp [none]
    · exact absurd ⟨int, sign, by omega, by omega⟩ notNeg

theorem ofLit_holds {l : Lit} {n : Number} (h : ofLit l = some n) : HoldsNumber l n := by
  unfold ofLit at h
  split at h
  · next pos =>
    obtain ⟨int, sign, small⟩ := pos
    obtain rfl := Option.some.inj h
    refine .posInt int ?_
    rw [lit_value_int int, UInt64.toNat_ofNat_of_lt' small]
    simp [sign]
  · split at h
    · next neg =>
      obtain ⟨int, sign, pos, small⟩ := neg
      obtain rfl := Option.some.inj h
      refine .negInt int ?_
      rw [lit_value_int int, Int64.toInt_ofInt_of_le (by omega) (by omega)]
      simp [sign]
    · next notPos notNeg =>
      obtain ⟨f, nearest, rfl⟩ := Option.map_eq_some_iff.mp h
      by_cases fits : Fits64 l
      · have zero := lit_value_zero fits notPos notNeg
        -- a double that is nearest to zero is a zero
        have := (litNearest_isNearest nearest).le
          ⟨false, 0, -1074, by decide, by decide, by decide, .inr rfl⟩
        rw [zero] at this
        exact .negZero fits.1 zero (by simpa [Binary64.value, Binary64.signed] using this)
      · exact .float fits

theorem ofLit_nearest {l : Lit} {n : Number} (h : ofLit l = some n) : Nearest l n := by
  rintro f rfl
  unfold ofLit at h
  split at h
  · cases h
  · split at h
    · cases h
    · obtain ⟨_, nearest, equal⟩ := Option.map_eq_some_iff.mp h
      cases equal
      exact litNearest_isNearest nearest

/-- The digits of `m` from position `w` on. -/
def fracDigits (m : ℕ) : ℕ → List (Fin 10)
  | 0 => []
  | w + 1 => fracDigits (m / 10) w ++ [digit m]

/-- `m * 10 ^ k`, where `m` has `n` digits: written out when that is short. -/
def layout (neg : Bool) (m n : ℕ) (k : ℤ) : Lit :=
  if n + k ≤ 16 ∧ 0 ≤ k then ⟨neg, m * 10 ^ k.toNat, [digit 0], none⟩
  else if n + k ≤ 16 ∧ -5 < n + k then
    ⟨neg, m / 10 ^ (-k).toNat, fracDigits m (-k).toNat, none⟩
  else ⟨neg, m / 10 ^ (n - 1), fracDigits m (n - 1), some (n + k - 1)⟩

/-- The decimal exponent of the first digit of `num / den`. -/
def magnitude (num den : ℕ) : ℤ :=
  if den ≤ num then (Nat.toDigits 10 (num / den)).length - 1
  else -(Nat.toDigits 10 ((den - 1) / num)).length

/-- A double with `n` digits. -/
def rounded (f : Binary64) (n : ℕ) : Lit :=
  let (num, den) := Binary64.scaled f.mant 1 (-f.exp)
  let k := magnitude num den - n + 1
  let m := if 0 ≤ k then Binary64.roundEven num (den * 10 ^ k.toNat)
    else Binary64.roundEven (num * 10 ^ (-k).toNat) den
  -- rounding up may give one digit more, which is a zero
  if m = 10 ^ n then layout f.neg (m / 10) n (k + 1) else layout f.neg m n k

/-- A double with all its digits. -/
def allDigits (f : Binary64) : Lit :=
  if 0 ≤ f.exp then ⟨f.neg, f.mant * 2 ^ f.exp.toNat, [], none⟩
  else ⟨f.neg, f.mant * 5 ^ (-f.exp).toNat, [], some f.exp⟩

/-- The shortest literal whose nearest double is `f`. -/
def shortest (f : Binary64) : Lit :=
  if f.mant = 0 then ⟨f.neg, 0, [digit 0], none⟩
  else (((List.range 17).map fun n => rounded f (n + 1)).find? fun l => litNearest l = some f).getD
    (allDigits f)

theorem allDigits_value (f : Binary64) : (allDigits f).value = f.value := by
  rw [lit_value, Binary64.value]
  unfold allDigits
  split
  · next nonneg =>
    obtain ⟨k, hk⟩ := Int.eq_ofNat_of_zero_le nonneg
    simp [Lit.digits, Lit.shift, hk]
  · next neg =>
    obtain ⟨k, hk⟩ := Int.eq_ofNat_of_zero_le (show 0 ≤ -f.exp by omega)
    obtain hk : f.exp = -(k : ℤ) := by omega
    have ten : (10 : ℚ) ^ k = 5 ^ k * 2 ^ k := by rw [← mul_pow]; norm_num
    simp only [Lit.digits, Lit.shift, hk, List.foldl_nil, List.length_nil, Option.getD_some,
      neg_neg, Int.toNat_natCast, Nat.cast_mul, Nat.cast_pow, Nat.cast_ofNat, Nat.cast_zero,
      sub_zero, zpow_neg, zpow_natCast, ten]
    congr 1
    field_simp

theorem shortest_isNearest (f : Binary64) : f.IsNearest (shortest f).value := by
  unfold shortest
  split
  · next zero =>
    have equal : f.value = (⟨f.neg, 0, [digit 0], none⟩ : Lit).value := by
      simp [Binary64.value, Binary64.signed, Lit.value, Lit.digits, digit, zero]
    exact equal ▸ f.isNearest_value
  · cases found : ((List.range 17).map fun n => rounded f (n + 1)).find?
      fun l => litNearest l = some f with
    | none =>
      rw [Option.getD_none, allDigits_value]
      exact f.isNearest_value
    | some l =>
      rw [Option.getD_some]
      exact litNearest_isNearest (by simpa using List.find?_some found)

/-- A number as it is written. -/
def toLit : Number → Lit
  | .posInt n => ⟨false, n.toNat, [], none⟩
  | .negInt n => ⟨n < 0, n.toInt.natAbs, [], none⟩
  | .float f => shortest f

theorem toLit_prints (n : Number) : PrintsNumber n (toLit n) := by
  cases n with
  | posInt n => exact .posInt (by rw [lit_value_int ⟨rfl, rfl⟩]; simp [toLit])
  | negInt n =>
    refine .negInt ?_
    rw [lit_value_int ⟨rfl, rfl⟩]
    have sign : (toLit (.negInt n)).neg = decide (n.toInt < 0) := by
      simp [toLit, Int64.lt_iff_toInt_lt]
    have abs : (toLit (.negInt n)).int = n.toInt.natAbs := rfl
    rw [sign, abs]
    congr 1
    by_cases neg : n.toInt < 0
    · simp only [neg, decide_true, if_true]
      omega
    · simp only [neg, decide_false, Bool.false_eq_true, if_false]
      omega
  | float f =>
    refine .float fun zero => ?_
    have none : f.mant = 0 := by
      have pos := Binary64.two_zpow_pos f.exp
      rw [Binary64.value] at zero
      cases sign : f.neg <;> simpa [sign, Binary64.signed, pos.ne'] using zero
    simp [toLit, shortest, none, Lit.value, Lit.digits, digit]

theorem toLit_nearest (n : Number) : Nearest (toLit n) n := by
  rintro f rfl
  exact shortest_isNearest f

/-! ## Values -/

mutual
/-- A value as it is parsed. -/
def ofDoc : Doc → Option Value
  | .null => some .null
  | .bool b => some (.bool b)
  | .num l => (ofLit l).map .number
  | .str s => some (.string s)
  | .arr items => (ofItems items).map .array
  | .obj members => (ofMembers [] members).map .object

def ofItems : List Doc → Option (List Value)
  | [] => some []
  | d :: rest => (ofDoc d).bind fun v => (ofItems rest).map fun items => v :: items

/-- Inserts the members in turn. -/
def ofMembers (acc : Members) : List (String × Doc) → Option Members
  | [] => some acc
  | (name, d) :: rest => (ofDoc d).bind fun v => ofMembers (acc.insert name v) rest
end

theorem memberTrees_insert (members : Members) (name : String) (v : Value) :
    memberTrees (members.insert name v) = fun name' =>
      if name' = name then some v.tree else memberTrees members name' := by
  funext name'
  rw [memberTrees_eq_get, Members.get_insert, memberTrees_eq_get]
  split <;> rfl

/-- The numbers of a value are those that the literals are parsed to. -/
def OfLit (l : Lit) (n : Number) : Prop := ofLit l = some n

mutual
theorem ofDoc_rel : ∀ (d : Doc) (v : Value), ofDoc d = some v →
    DocTree.Rel OfLit d.tree v.tree
  | .null, v, h => by
    obtain rfl := Option.some.inj h
    exact .null
  | .bool b, v, h => by
    obtain rfl := Option.some.inj h
    exact .bool b
  | .num l, v, h => by
    obtain ⟨n, held, rfl⟩ := Option.map_eq_some_iff.mp h
    exact .num held
  | .str s, v, h => by
    obtain rfl := Option.some.inj h
    exact .str s
  | .arr items, v, h => by
    obtain ⟨values, held, rfl⟩ := Option.map_eq_some_iff.mp h
    exact ofItems_rel items values held
  | .obj members, v, h => by
    obtain ⟨values, held, rfl⟩ := Option.map_eq_some_iff.mp h
    have empty : DocTree.Rel OfLit (.obj fun _ => none) (.obj (memberTrees [])) :=
      .obj (fun _ => rfl) fun _ _ _ none => by cases none
    have related := ofMembers_rel members _ [] values empty held
    simpa [Doc.tree, Value.tree] using related

theorem ofItems_rel : ∀ (items : List Doc) (values : List Value), ofItems items = some values →
    DocTree.Rel OfLit (.arr (itemTrees items)) (.arr (valueTrees values))
  | [], values, h => by
    obtain rfl := Option.some.inj h
    exact .arr rfl fun i t t' ht => by cases ht
  | d :: rest, values, h => by
    obtain ⟨v, first, mapped⟩ := Option.bind_eq_some_iff.mp h
    obtain ⟨others, held, rfl⟩ := Option.map_eq_some_iff.mp mapped
    exact .cons (ofDoc_rel d v first) (ofItems_rel rest others held)

/-- The members to come go before those already there. -/
theorem ofMembers_rel : ∀ (members : List (String × Doc)) (member : String → Option (DocTree Lit))
    (acc values : Members), DocTree.Rel OfLit (.obj member) (.obj (memberTrees acc)) →
    ofMembers acc members = some values →
    DocTree.Rel OfLit (.obj fun name => (memberTree members name).or (member name))
      (.obj (memberTrees values))
  | [], member, acc, values, related, h => by
    obtain rfl := Option.some.inj h
    simpa [memberTree] using related
  | (name, d) :: rest, member, acc, values, related, h => by
    obtain ⟨v, first, held⟩ := Option.bind_eq_some_iff.mp h
    -- inserting the member is setting it on both sides; the rest goes before it
    have step := related.setMember name (ofDoc_rel d v first)
    simp only [DocTree.setMember, ← memberTrees_insert] at step
    have all := ofMembers_rel rest _ _ values step held
    have equal : (fun name' => (memberTree ((name, d) :: rest) name').or (member name')) =
        fun name' => (memberTree rest name').or
          (if name' = name then some d.tree else member name') := by
      funext name'
      by_cases own : name' = name <;> simp [memberTree, own]
    exact equal ▸ all
end

mutual
/-- A value as it is written. Of two members with one name the first one counts. -/
def docOf : Value → Doc
  | .null => .null
  | .bool b => .bool b
  | .number n => .num (toLit n)
  | .string s => .str s
  | .array items => .arr (itemDocs items)
  | .object members => .obj (memberDocs members)

def itemDocs : List Value → List Doc
  | [] => []
  | v :: rest => docOf v :: itemDocs rest

def memberDocs : List (String × Value) → List (String × Doc)
  | [] => []
  | (name, v) :: rest => (name, docOf v) :: (memberDocs rest).filter fun m => m.1 ≠ name
end

theorem memberTree_filter (name : String) (members : List (String × Doc)) (name' : String) :
    memberTree (members.filter fun m => m.1 ≠ name) name' =
      if name' = name then none else memberTree members name' := by
  induction members with
  | nil => simp [memberTree]
  | cons m rest ih =>
    by_cases same : m.1 = name
    · rw [List.filter_cons_of_neg (by simpa using same), ih]
      by_cases own : name' = name
      · simp [own]
      · simp [own, memberTree, show name' ≠ m.1 from same ▸ own]
    · rw [List.filter_cons_of_pos (by simpa using same)]
      simp only [memberTree, ih]
      by_cases own : name' = name
      · simp [own, Ne.symm same]
      · simp [own]

/-- The literals of a document are those that the numbers are written as. -/
def ToLit (n : Number) (l : Lit) : Prop := toLit n = l

mutual
theorem docOf_rel : ∀ v : Value, DocTree.Rel ToLit v.tree (docOf v).tree
  | .null => .null
  | .bool b => .bool b
  | .number _ => .num rfl
  | .string s => .str s
  | .array items => itemDocs_rel items
  | .object members => memberDocs_rel members

theorem itemDocs_rel : ∀ items : List Value,
    DocTree.Rel ToLit (.arr (valueTrees items)) (.arr (itemTrees (itemDocs items)))
  | [] => .arr rfl fun i t t' ht => by cases ht
  | v :: rest => .cons (docOf_rel v) (itemDocs_rel rest)

theorem memberDocs_rel : ∀ members : List (String × Value),
    DocTree.Rel ToLit (.obj (memberTrees members)) (.obj (memberTree (memberDocs members)))
  | [] => .obj (fun _ => rfl) fun _ _ _ none => by cases none
  | (name, v) :: rest => by
    have step := (memberDocs_rel rest).setMember name (docOf_rel v)
    simp only [DocTree.setMember] at step
    have held : memberTrees ((name, v) :: rest) = fun name' =>
        if name' = name then some v.tree else memberTrees rest name' := by
      funext name'
      simp [memberTrees, eq_comm]
    have written : memberTree (memberDocs ((name, v) :: rest)) = fun name' =>
        if name' = name then some (docOf v).tree else memberTree (memberDocs rest) name' := by
      funext name'
      simp only [memberDocs, memberTree, memberTree_filter]
      by_cases own : name' = name <;> simp [own]
    rw [held, written]
    exact step
end

/-! ## The parser and the writer -/

/-- Reads and writes as `serde_json` does, but for the rounding of doubles that are read, and
without a limit for the depth. -/
def SerdeJson.reference : SerdeJson where
  fromSlice bytes := (read bytes).bind ofDoc
  toWriter v := some (write (docOf v))

theorem SerdeJson.reference_documented : SerdeJson.reference.Documented where
  parses bytes v h := by
    obtain ⟨d, text, held⟩ := Option.bind_eq_some_iff.mp h
    exact ⟨d, text, (ofDoc_rel d v held).imp fun _ _ => ofLit_holds⟩
  writes v := by
    refine ⟨_, docOf v, rfl, read_write _, (docOf_rel v).imp ?_⟩
    rintro n _ rfl
    exact toLit_prints n

theorem SerdeJson.reference_roundsToNearest : SerdeJson.reference.RoundsToNearest where
  parses bytes v h := by
    obtain ⟨d, text, held⟩ := Option.bind_eq_some_iff.mp h
    exact ⟨d, text, (ofDoc_rel d v held).imp fun _ _ => ofLit_nearest⟩
  writes v := by
    refine ⟨_, docOf v, rfl, read_write _, (docOf_rel v).imp ?_⟩
    rintro n _ rfl
    exact toLit_nearest n

/-- A value that its own document holds is read back from what is written for it. -/
theorem SerdeJson.reference_readsBack {v : Value} (held : ofDoc (docOf v) = some v)
    {data : Bytes} (written : SerdeJson.reference.toWriter v = some data) :
    SerdeJson.reference.fromSlice data = some v := by
  cases written
  simp only [reference, read_write, Option.bind_some, held]

end SimplyProxy
