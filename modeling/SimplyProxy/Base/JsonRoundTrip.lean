import SimplyProxy.Base.JsonText

/-!
# Reading back what was written

`read_write`: every document is read back from its compact text, and nothing of it
is lost. The induction is on the fuel, with one case for each kind of document. A
document is read back whatever follows it, except that what follows a number must
not continue it (`Ends`).
-/

namespace JsonText

/-! ## Digits -/

/-- The text does not go on with a character of a number. -/
def Ends (rest : List Char) : Prop :=
  ∀ c, rest.head? = some c → c.isDigit = false ∧ c ≠ '.' ∧ c ≠ 'e' ∧ c ≠ 'E'

theorem ends_nil : Ends [] := by
  intro c h
  cases h

theorem ends_cons {c : Char} {rest : List Char}
    (h : c.isDigit = false ∧ c ≠ '.' ∧ c ≠ 'e' ∧ c ≠ 'E') : Ends (c :: rest) := by
  intro c' equal
  obtain rfl : c = c' := by simpa using equal
  exact h

/-- The text does not go on with a digit. -/
def NoDigit (rest : List Char) : Prop := ∀ c, rest.head? = some c → c.isDigit = false

theorem noDigit_cons {c : Char} (h : c.isDigit = false) (rest : List Char) :
    NoDigit (c :: rest) := by
  intro c' equal
  obtain rfl : c = c' := by simpa using equal
  exact h

theorem Ends.noDigit {rest : List Char} (h : Ends rest) : NoDigit rest :=
  fun c equal => (h c equal).1

theorem takeWhile_digits {ds rest : List Char} (hds : ∀ c ∈ ds, c.isDigit) (h : NoDigit rest) :
    (ds ++ rest).takeWhile Char.isDigit = ds := by
  rw [List.takeWhile_append_of_pos hds]
  cases rest with
  | nil => simp
  | cons c rest => simp [h c rfl]

theorem dropWhile_digits {ds rest : List Char} (hds : ∀ c ∈ ds, c.isDigit) (h : NoDigit rest) :
    (ds ++ rest).dropWhile Char.isDigit = rest := by
  rw [List.dropWhile_append_of_pos hds]
  cases rest with
  | nil => simp
  | cons c rest => simp [h c rfl]

theorem isDigit_toDigits (n : ℕ) : ∀ c ∈ Nat.toDigits 10 n, c.isDigit := fun _ hc =>
  Nat.isDigit_of_mem_toDigits (by decide) (by decide) hc

/-- Only zero is written with a leading zero. -/
theorem toDigits_head (n : ℕ) (h : (Nat.toDigits 10 n).head? = some '0') :
    Nat.toDigits 10 n = ['0'] := by
  induction n using Nat.strongRecOn with
  | _ n ih =>
    rw [Nat.toDigits_eq_if (by decide)] at h ⊢
    split
    · next small =>
      rw [if_pos small] at h
      simpa using h
    · next large =>
      rw [if_neg large] at h
      have nonempty : Nat.toDigits 10 (n / 10) ≠ [] := Nat.toDigits_ne_nil
      rw [List.head?_append_of_ne_nil _ nonempty] at h
      have zero := ih (n / 10) (by omega) h
      have : n / 10 = 0 := calc
        n / 10 = Nat.ofDigitChars 10 (Nat.toDigits 10 (n / 10)) 0 :=
          Nat.ofDigitChars_ten_toDigits.symm
        _ = 0 := by rw [zero]; rfl
      omega

/-! ## Numbers -/

theorem readInt_toDigits (n : ℕ) {rest : List Char} (h : NoDigit rest) :
    readInt (Nat.toDigits 10 n ++ rest) = some (n, rest) := by
  unfold readInt
  rw [takeWhile_digits (isDigit_toDigits n) h, dropWhile_digits (isDigit_toDigits n) h]
  have canonical : ¬(Nat.toDigits 10 n = [] ∨
      ((Nat.toDigits 10 n).head? = some '0' ∧ Nat.toDigits 10 n ≠ ['0'])) := by
    rintro (empty | ⟨leading, ne⟩)
    · exact Nat.toDigits_ne_nil empty
    · exact ne (toDigits_head n leading)
  simp only [if_neg canonical, Nat.ofDigitChars_ten_toDigits]

theorem digitValue_digitChar : ∀ d : Fin 10, digitValue (digitChar d) = d := by decide

theorem isDigit_digitChar : ∀ d : Fin 10, (digitChar d).isDigit = true := by decide

theorem readFrac_text (ds : List (Fin 10)) {rest : List Char} (h : NoDigit rest)
    (dot : rest.head? ≠ some '.') : readFrac (fracText ds ++ rest) = some (ds, rest) := by
  cases ds with
  | nil => simp [fracText, readFrac, dot]
  | cons d ds =>
    have digits : ∀ c ∈ (d :: ds).map digitChar, c.isDigit := by
      intro c hc
      obtain ⟨d', -, rfl⟩ := List.mem_map.mp hc
      exact isDigit_digitChar d'
    have back : ((d :: ds).map digitChar).map digitValue = d :: ds := by
      rw [List.map_map]
      exact (List.map_congr_left fun d' _ => digitValue_digitChar d').trans (List.map_id _)
    simp only [readFrac, fracText, List.cons_append, List.head?_cons, if_true, List.tail_cons,
      takeWhile_digits digits h, dropWhile_digits digits h, back]
    simp

/-- Digits behind the `e` and the sign. -/
theorem readExp_digits {neg : Bool} {cs : List Char} (n : ℕ) {rest : List Char} (h : NoDigit rest)
    (sign : readSign cs = (neg, Nat.toDigits 10 n ++ rest)) :
    readExp ('e' :: cs) = some (some (if neg then -(n : ℤ) else n), rest) := by
  have nonempty : Nat.toDigits 10 n ≠ [] := Nat.toDigits_ne_nil
  simp only [readExp, List.head?_cons, List.tail_cons, sign,
    takeWhile_digits (isDigit_toDigits n) h, dropWhile_digits (isDigit_toDigits n) h,
    Nat.ofDigitChars_ten_toDigits, nonempty]
  simp

theorem readExp_text (e : Option ℤ) {rest : List Char} (h : Ends rest) :
    readExp (expText e ++ rest) = some (e, rest) := by
  cases e with
  | none =>
    have small : rest.head? ≠ some 'e' := fun equal => (h 'e' equal).2.2.1 rfl
    have capital : rest.head? ≠ some 'E' := fun equal => (h 'E' equal).2.2.2 rfl
    simp [expText, readExp, small, capital]
  | some e =>
    by_cases neg : e < 0
    · have sign : readSign ('-' :: (Nat.toDigits 10 e.natAbs ++ rest)) =
          (true, Nat.toDigits 10 e.natAbs ++ rest) := rfl
      simp only [expText, neg, if_true, List.cons_append]
      rw [readExp_digits e.natAbs h.noDigit sign]
      simp only [if_true, Option.some.injEq, Prod.mk.injEq, and_true]
      omega
    · have sign : readSign ('+' :: (Nat.toDigits 10 e.natAbs ++ rest)) =
          (false, Nat.toDigits 10 e.natAbs ++ rest) := rfl
      simp only [expText, neg, if_false, List.cons_append]
      rw [readExp_digits e.natAbs h.noDigit sign]
      simp only [Bool.false_eq_true, if_false, Option.some.injEq, Prod.mk.injEq, and_true]
      omega

/-- What follows the fraction does not continue it. -/
theorem expText_ends (e : Option ℤ) {rest : List Char} (h : Ends rest) :
    NoDigit (expText e ++ rest) ∧ (expText e ++ rest).head? ≠ some '.' := by
  cases e with
  | none => exact ⟨h.noDigit, fun equal => (h '.' equal).2.1 rfl⟩
  | some e => exact ⟨noDigit_cons (by decide) _, by simp [expText]⟩

/-- What follows the integer part does not continue it. -/
theorem fracText_noDigit (ds : List (Fin 10)) {rest : List Char} (h : NoDigit rest) :
    NoDigit (fracText ds ++ rest) := by
  cases ds with
  | nil => exact h
  | cons d ds => exact noDigit_cons (by decide) _

theorem readUnsigned_text (neg : Bool) (int : ℕ) (frac : List (Fin 10)) (exp : Option ℤ)
    {rest : List Char} (h : Ends rest) :
    readUnsigned neg (Nat.toDigits 10 int ++ (fracText frac ++ (expText exp ++ rest))) =
      some (⟨neg, int, frac, exp⟩, rest) := by
  obtain ⟨noDigit, dot⟩ := expText_ends exp h
  unfold readUnsigned
  rw [readInt_toDigits int (fracText_noDigit frac noDigit)]
  show (readFrac (fracText frac ++ (expText exp ++ rest)) >>= _) = _
  rw [readFrac_text frac noDigit dot]
  show (readExp (expText exp ++ rest) >>= _) = _
  rw [readExp_text exp h]
  rfl

theorem readNumber_text (l : Lit) {rest : List Char} (h : Ends rest) :
    readNumber (l.text ++ rest) = some (l, rest) := by
  obtain ⟨neg, int, frac, exp⟩ := l
  simp only [Lit.text, List.append_assoc]
  cases neg with
  | true => exact readUnsigned_text true int frac exp h
  | false =>
    obtain ⟨c, cs, equal⟩ := List.exists_cons_of_ne_nil (Nat.toDigits_ne_nil (n := int) (b := 10))
    have digit := isDigit_toDigits int c (by simp [equal])
    have unsigned : (Nat.toDigits 10 int ++ (fracText frac ++ (expText exp ++ rest))).head? ≠
        some '-' := by
      rw [equal, List.cons_append, List.head?_cons]
      rintro ⟨⟩
      exact absurd digit (by decide)
    exact (if_neg unsigned).trans (readUnsigned_text false int frac exp h)

/-! ## Strings -/

theorem hexValue_hexChar : ∀ d : Fin 16, hexValue (hexChar d) = some d.val := by decide

/-- A control character without a short escape. -/
theorem readEscape_control {c : Char} (h : c.toNat < 32) (rest : List Char) :
    readEscape ('u' :: '0' :: '0' :: hexChar (c.toNat / 16) :: hexChar (c.toNat % 16) :: rest) =
      some (c, rest) := by
  have zero : hexValue '0' = some 0 := by decide
  have high := hexValue_hexChar ⟨c.toNat / 16, by omega⟩
  have low := hexValue_hexChar ⟨c.toNat % 16, by omega⟩
  simp only at high low
  have code : ((0 * 16 + 0) * 16 + c.toNat / 16) * 16 + c.toNat % 16 = c.toNat := by omega
  have hex : readHex4 ('0' :: '0' :: hexChar (c.toNat / 16) :: hexChar (c.toNat % 16) :: rest) =
      some (c.toNat, rest) := by
    simp only [readHex4, zero, high, low, Option.bind_eq_bind, Option.bind_some, code]
  have bound : ¬(0xD800 ≤ c.toNat ∧ c.toNat < 0xDC00) ∧ ¬(0xDC00 ≤ c.toNat ∧ c.toNat < 0xE000) := by
    omega
  simp only [readEscape, if_true, readUnicode, hex, Option.bind_eq_bind, Option.bind_some,
    if_neg bound.1, if_neg bound.2, Char.ofNat_toNat]

/-- A written character is read back, and reading goes on behind it. -/
theorem readChars_escape (c : Char) (n : ℕ) (rest : List Char) :
    readChars (n + 1) (escape c ++ rest) =
      (readChars n rest).map fun p => (c :: p.1, p.2) := by
  have step (more : List Char) (h : readEscape more = some (c, rest)) :
      readChars (n + 1) ('\\' :: more) = (readChars n rest).map fun p => (c :: p.1, p.2) := by
    show ((readEscape more).bind fun r =>
      (readChars n r.2).bind fun p => some (r.1 :: p.1, p.2)) = _
    simp only [h, Option.bind_some]
    cases readChars n rest <;> rfl
  unfold escape
  split
  · next h => subst h; exact step _ rfl
  split
  · next h => subst h; exact step _ rfl
  split
  · next h => subst h; exact step _ rfl
  split
  · next h => subst h; exact step _ rfl
  split
  · next h => subst h; exact step _ rfl
  split
  · next h => subst h; exact step _ rfl
  split
  · next h => subst h; exact step _ rfl
  split
  · next control => exact step _ (readEscape_control control rest)
  · next quote backslash _ _ _ _ _ control =>
    simp only [List.cons_append, List.nil_append, readChars, if_neg quote, if_neg backslash,
      if_neg control]
    cases readChars n rest <;> rfl

theorem readChars_text (cs : List Char) (n : ℕ) (h : cs.length < n) (rest : List Char) :
    readChars n (cs.flatMap escape ++ '"' :: rest) = some (cs, rest) := by
  induction cs generalizing n with
  | nil =>
    obtain ⟨n, rfl⟩ := Nat.exists_eq_succ_of_ne_zero (Nat.ne_of_gt h)
    rfl
  | cons c cs ih =>
    obtain ⟨n, rfl⟩ := Nat.exists_eq_succ_of_ne_zero (Nat.ne_of_gt (Nat.zero_lt_of_lt h))
    rw [List.flatMap_cons, List.append_assoc, Nat.succ_eq_add_one, readChars_escape,
      ih n (Nat.lt_of_succ_lt_succ h)]
    rfl

theorem length_escape (c : Char) : 1 ≤ (escape c).length := by
  unfold escape
  repeat' split
  all_goals simp

theorem length_flatMap_escape (cs : List Char) : cs.length ≤ (cs.flatMap escape).length := by
  induction cs with
  | nil => simp
  | cons c cs ih =>
    have := length_escape c
    simp only [List.flatMap_cons, List.length_append, List.length_cons]
    omega

theorem readString_text (s : String) (rest : List Char) :
    readString (s.toList.flatMap escape ++ '"' :: rest) = some (s, rest) := by
  have enough : s.toList.length < (s.toList.flatMap escape ++ '"' :: rest).length + 1 := by
    have := length_flatMap_escape s.toList
    simp only [List.length_append, List.length_cons]
    omega
  unfold readString
  rw [readChars_text s.toList _ enough rest]
  simp

/-! ## Documents -/

theorem skipWs_cons {c : Char} (h : isWs c = false) (rest : List Char) :
    skipWs (c :: rest) = c :: rest := by
  simp [skipWs, h]

/-- A number starts with a character that no other document starts with. -/
theorem lit_head (l : Lit) : ∃ c cs, l.text = c :: cs ∧ (c = '-' ∨ c.isDigit) := by
  obtain ⟨neg, int, frac, exp⟩ := l
  cases neg with
  | true => exact ⟨'-', _, rfl, .inl rfl⟩
  | false =>
    obtain ⟨c, cs, equal⟩ := List.exists_cons_of_ne_nil (Nat.toDigits_ne_nil (n := int) (b := 10))
    refine ⟨c, cs ++ (fracText frac ++ expText exp), ?_, .inr ?_⟩
    · simp [Lit.text, equal]
    · exact isDigit_toDigits int c (by simp [equal])

theorem not_of_number {c : Char} (h : c = '-' ∨ c.isDigit) :
    isWs c = false ∧ c ≠ ']' ∧ c ≠ '"' ∧ c ≠ '[' ∧ c ≠ '{' ∧ c ≠ 'n' ∧ c ≠ 't' ∧ c ≠ 'f' := by
  rcases h with rfl | digit
  · decide
  · have apart (c' : Char) (h : c'.isDigit = false) : c ≠ c' := by
      rintro rfl
      exact absurd digit (by simp [h])
    refine ⟨?_, apart _ rfl, apart _ rfl, apart _ rfl, apart _ rfl, apart _ rfl, apart _ rfl,
      apart _ rfl⟩
    simp [isWs, apart ' ' rfl, apart '\t' rfl, apart '\n' rfl, apart '\r' rfl]

/-- A document starts with neither white space nor a closing bracket. -/
theorem text_head (d : Doc) : ∃ c cs, d.text = c :: cs ∧ isWs c = false ∧ c ≠ ']' := by
  cases d with
  | null => exact ⟨'n', _, by rw [Doc.text], by decide⟩
  | bool b =>
    cases b with
    | true => exact ⟨'t', _, by rw [Doc.text], by decide⟩
    | false => exact ⟨'f', _, by rw [Doc.text], by decide⟩
  | num l =>
    obtain ⟨c, cs, equal, number⟩ := lit_head l
    exact ⟨c, cs, by rw [Doc.text, equal], (not_of_number number).1, (not_of_number number).2.1⟩
  | str s => exact ⟨'"', _, by rw [Doc.text, stringText, List.cons_append], by decide⟩
  | arr items => exact ⟨'[', _, by rw [Doc.text, List.cons_append], by decide⟩
  | obj members => exact ⟨'{', _, by rw [Doc.text, List.cons_append], by decide⟩

theorem readSep_comma (close : Char) (rest : List Char) :
    readSep close (',' :: rest) = some (true, rest) := rfl

theorem readSep_close {close : Char} (h : isWs close = false ∧ close ≠ ',') (rest : List Char) :
    readSep close (close :: rest) = some (false, rest) := by
  simp [readSep, skipWs_cons h.1, h.2]

theorem ends_comma (rest : List Char) : Ends (',' :: rest) := ends_cons (by decide)

theorem itemsText_head (d : Doc) (ds : List Doc) :
    ∃ c cs, itemsText (d :: ds) = c :: cs ∧ isWs c = false ∧ c ≠ ']' := by
  obtain ⟨c, cs, equal, start⟩ := text_head d
  cases ds with
  | nil => exact ⟨c, cs, by rw [itemsText, equal], start⟩
  | cons d' ds => exact ⟨c, _, by rw [itemsText, equal, List.cons_append], start⟩

theorem membersText_head (m : String × Doc) (ms : List (String × Doc)) :
    ∃ cs, membersText (m :: ms) = '"' :: cs := by
  cases ms with
  | nil => exact ⟨_, by rw [membersText, stringText, List.cons_append, List.cons_append]⟩
  | cons m' ms =>
    exact ⟨_, by rw [membersText, stringText, List.cons_append, List.cons_append, List.cons_append]⟩

theorem readValue_array {n : ℕ} {cs rest : List Char} {items : List Doc}
    (opens : (skipWs cs).head? ≠ some ']') (back : readItems n cs = some (items, rest)) :
    readValue (n + 1) ('[' :: cs) = some (.arr items, rest) := by
  show (if (skipWs cs).head? = some ']' then some (Doc.arr [], (skipWs cs).tail)
    else (readItems n cs).bind fun p => some (.arr p.1, p.2)) = _
  rw [if_neg opens, back]
  rfl

theorem readValue_object {n : ℕ} {cs rest : List Char} {members : List (String × Doc)}
    (opens : (skipWs cs).head? ≠ some '}') (back : readMembers n cs = some (members, rest)) :
    readValue (n + 1) ('{' :: cs) = some (.obj members, rest) := by
  show (if (skipWs cs).head? = some '}' then some (Doc.obj [], (skipWs cs).tail)
    else (readMembers n cs).bind fun p => some (.obj p.1, p.2)) = _
  rw [if_neg opens, back]
  rfl

mutual
theorem readValue_text (n : ℕ) (d : Doc) (h : d.text.length < n) {rest : List Char}
    (ends : Ends rest) : readValue n (d.text ++ rest) = some (d, rest) := by
  obtain ⟨n, rfl⟩ := Nat.exists_eq_add_of_lt (Nat.zero_lt_of_lt h)
  rw [Nat.zero_add] at h ⊢
  cases d with
  | null => rw [Doc.text]; rfl
  | bool b => cases b <;> rw [Doc.text] <;> rfl
  | num l =>
    obtain ⟨c, cs, equal, number⟩ := lit_head l
    obtain ⟨ws, -, quote, bracket, brace, hn, ht, hf⟩ := not_of_number number
    have back := readNumber_text l ends
    rw [Doc.text]
    rw [equal, List.cons_append] at back ⊢
    simp only [readValue, skipWs_cons ws, if_neg quote, if_neg bracket, if_neg brace, if_neg hn,
      if_neg ht, if_neg hf, back, Option.bind_eq_bind, Option.bind_some]
  | str s =>
    simp only [Doc.text, stringText, List.cons_append, List.append_assoc, List.nil_append,
      readValue, skipWs_cons (show isWs '"' = false by decide), if_true, readString_text s rest,
      Option.bind_eq_bind, Option.bind_some]
  | arr items =>
    cases items with
    | nil => rw [Doc.text]; rfl
    | cons d ds =>
      simp only [Doc.text, List.length_cons, List.length_append, List.length_nil] at h
      obtain ⟨c, cs, equal, ws, bracket⟩ := itemsText_head d ds
      have opens : (skipWs (itemsText (d :: ds) ++ ']' :: rest)).head? ≠ some ']' := by
        rw [equal, List.cons_append, skipWs_cons ws, List.head?_cons]
        simpa using bracket
      simp only [Doc.text, List.cons_append, List.append_assoc, List.nil_append]
      exact readValue_array opens (readItems_text n d ds (by omega) rest)
  | obj members =>
    cases members with
    | nil => rw [Doc.text]; rfl
    | cons m ms =>
      simp only [Doc.text, List.length_cons, List.length_append, List.length_nil] at h
      obtain ⟨cs, equal⟩ := membersText_head m ms
      have opens : (skipWs (membersText (m :: ms) ++ '}' :: rest)).head? ≠ some '}' := by
        rw [equal, List.cons_append, skipWs_cons (by decide), List.head?_cons]
        decide
      simp only [Doc.text, List.cons_append, List.append_assoc, List.nil_append]
      exact readValue_object opens (readMembers_text n m ms (by omega) rest)

theorem readItems_text (n : ℕ) (d : Doc) (ds : List Doc)
    (h : (itemsText (d :: ds)).length + 1 < n) (rest : List Char) :
    readItems n (itemsText (d :: ds) ++ ']' :: rest) = some (d :: ds, rest) := by
  obtain ⟨n, rfl⟩ := Nat.exists_eq_add_of_lt (Nat.zero_lt_of_lt h)
  rw [Nat.zero_add] at h ⊢
  cases ds with
  | nil =>
    rw [itemsText] at h
    have last : Ends (']' :: rest) := ends_cons (by decide)
    have back := readValue_text n d (by omega) last
    simp [itemsText, readItems, back, readSep_close (show _ ∧ ']' ≠ ',' by decide)]
  | cons d' ds =>
    rw [itemsText, List.length_append, List.length_cons] at h
    have back := readValue_text n d (by omega) (ends_comma (itemsText (d' :: ds) ++ ']' :: rest))
    have more := readItems_text n d' ds (by omega) rest
    simp [itemsText, readItems, back, more, readSep_comma]

theorem readMembers_text (n : ℕ) (m : String × Doc) (ms : List (String × Doc))
    (h : (membersText (m :: ms)).length + 1 < n) (rest : List Char) :
    readMembers n (membersText (m :: ms) ++ '}' :: rest) = some (m :: ms, rest) := by
  obtain ⟨n, rfl⟩ := Nat.exists_eq_add_of_lt (Nat.zero_lt_of_lt h)
  rw [Nat.zero_add] at h ⊢
  obtain ⟨name, d⟩ := m
  have quote := skipWs_cons (show isWs '"' = false by decide)
  have colon := skipWs_cons (show isWs ':' = false by decide)
  cases ms with
  | nil =>
    rw [membersText, List.length_append, List.length_cons] at h
    have last : Ends ('}' :: rest) := ends_cons (by decide)
    have back := readValue_text n d (by omega) last
    simp [membersText, stringText, readMembers, quote, colon, readString_text, back,
      readSep_close (show _ ∧ '}' ≠ ',' by decide)]
  | cons m' ms =>
    rw [membersText, List.length_append, List.length_append, List.length_cons,
      List.length_cons] at h
    have back := readValue_text n d (by omega) (ends_comma (membersText (m' :: ms) ++ '}' :: rest))
    have more := readMembers_text n m' ms (by omega) rest
    simp [membersText, stringText, readMembers, quote, colon, readString_text, back, more,
      readSep_comma]
end

/-- A document is read back from its text. -/
theorem readText_text (d : Doc) : readText d.text = some d := by
  have back := readValue_text (2 * d.text.length + 2) d (by omega) ends_nil
  rw [List.append_nil] at back
  have noRest : skipWs [] = [] := rfl
  simp only [readText, back, Option.bind_eq_bind, Option.bind_some, noRest, if_true]

theorem decode_encode (s : String) : decode (encode s) = some s := by
  have bytes : (⟨(encode s).toArray⟩ : ByteArray) = s.toUTF8 := by simp [encode]
  rw [decode, bytes]
  exact dif_pos s.isValidUTF8

/-- Every document is read back from what is written for it. -/
theorem read_write (d : Doc) : read (write d) = some d := by
  simp [read, write, decode_encode, readText_text]

end JsonText
