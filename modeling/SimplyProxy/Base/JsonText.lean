import Mathlib.Data.List.Basic
import Mathlib.Algebra.Order.Field.Rat
import Mathlib.Data.Rat.Cast.Defs

/-!
# JSON texts

The grammar of RFC 8259 as a reader, and a compact writer. A `Doc` keeps of a text
what it denotes: the members of objects in their order, strings as Unicode text,
and number literals by their digits. White space, the spelling of escapes and a
redundant `+` or `E` are not kept.

The reader takes fuel; `readText` gives it two units for each character, and of two
nested calls at least one has consumed a character.
-/

namespace JsonText

/-- A number literal: sign, integer part, digits of the fraction (none when there is
no fraction) and exponent. -/
structure Lit where
  neg : Bool
  int : ℕ
  frac : List (Fin 10)
  exp : Option ℤ
deriving DecidableEq

/-- The digits of the literal, read as one integer. -/
def Lit.digits (l : Lit) : ℕ := l.frac.foldl (fun n d => 10 * n + d.val) l.int

/-- The power of ten that the digits are counted in. -/
def Lit.shift (l : Lit) : ℤ := l.exp.getD 0 - l.frac.length

def Lit.value (l : Lit) : ℚ := (if l.neg then -1 else 1) * (l.digits * 10 ^ l.shift)

/-- An integer literal: neither fraction nor exponent. -/
def Lit.isInt (l : Lit) : Prop := l.frac = [] ∧ l.exp = none

instance (l : Lit) : Decidable l.isInt := inferInstanceAs (Decidable (_ ∧ _))

inductive Doc
  | null
  | bool (b : Bool)
  | num (l : Lit)
  | str (s : String)
  | arr (items : List Doc)
  | obj (members : List (String × Doc))

/-! ## Writing -/

/-- The last decimal digit. -/
def digit (n : ℕ) : Fin 10 := Fin.ofNat 10 n

def digitChar (d : Fin 10) : Char := Nat.digitChar d

def fracText : List (Fin 10) → List Char
  | [] => []
  | ds => '.' :: ds.map digitChar

def expText : Option ℤ → List Char
  | none => []
  | some e => 'e' :: (if e < 0 then '-' else '+') :: Nat.toDigits 10 e.natAbs

def Lit.text (l : Lit) : List Char :=
  (if l.neg then ['-'] else []) ++ Nat.toDigits 10 l.int ++ fracText l.frac ++ expText l.exp

def hexChar (d : ℕ) : Char := Nat.digitChar d

/-- A character inside a string literal. -/
def escape (c : Char) : List Char :=
  if c = '"' then ['\\', '"']
  else if c = '\\' then ['\\', '\\']
  else if c = '\x08' then ['\\', 'b']
  else if c = '\x0c' then ['\\', 'f']
  else if c = '\n' then ['\\', 'n']
  else if c = '\r' then ['\\', 'r']
  else if c = '\t' then ['\\', 't']
  else if c.toNat < 32 then ['\\', 'u', '0', '0', hexChar (c.toNat / 16), hexChar (c.toNat % 16)]
  else [c]

def stringText (s : String) : List Char := '"' :: s.toList.flatMap escape ++ ['"']

mutual
def Doc.text : Doc → List Char
  | .null => ['n', 'u', 'l', 'l']
  | .bool true => ['t', 'r', 'u', 'e']
  | .bool false => ['f', 'a', 'l', 's', 'e']
  | .num l => l.text
  | .str s => stringText s
  | .arr items => '[' :: itemsText items ++ [']']
  | .obj members => '{' :: membersText members ++ ['}']

def itemsText : List Doc → List Char
  | [] => []
  | [d] => d.text
  | d :: d' :: rest => d.text ++ ',' :: itemsText (d' :: rest)

def membersText : List (String × Doc) → List Char
  | [] => []
  | [(name, d)] => stringText name ++ ':' :: d.text
  | (name, d) :: m :: rest => stringText name ++ ':' :: d.text ++ ',' :: membersText (m :: rest)
end

/-! ## Reading -/

def isWs (c : Char) : Bool := c = ' ' || c = '\t' || c = '\n' || c = '\r'

def skipWs (cs : List Char) : List Char := cs.dropWhile isWs

def digitValue (c : Char) : Fin 10 := digit (c.toNat - 48)

def hexValue (c : Char) : Option ℕ :=
  if c.isDigit then some (c.toNat - 48)
  else if 'a' ≤ c ∧ c ≤ 'f' then some (c.toNat - 87)
  else if 'A' ≤ c ∧ c ≤ 'F' then some (c.toNat - 55)
  else none

def readHex4 : List Char → Option (ℕ × List Char)
  | a :: b :: c :: d :: rest => do
    let a ← hexValue a
    let b ← hexValue b
    let c ← hexValue c
    let d ← hexValue d
    some (((a * 16 + b) * 16 + c) * 16 + d, rest)
  | _ => none

/-- The four digits behind `\u`, and a second escape behind a high surrogate. A
surrogate that is not part of a pair stands for no character. -/
def readUnicode (cs : List Char) : Option (Char × List Char) := do
  let (high, rest) ← readHex4 cs
  if 0xD800 ≤ high ∧ high < 0xDC00 then
    match rest with
    | '\\' :: 'u' :: rest => do
      let (low, rest) ← readHex4 rest
      if 0xDC00 ≤ low ∧ low < 0xE000 then
        some (Char.ofNat (0x10000 + (high - 0xD800) * 0x400 + (low - 0xDC00)), rest)
      else none
    | _ => none
  else if 0xDC00 ≤ high ∧ high < 0xE000 then none
  else some (Char.ofNat high, rest)

/-- What follows a backslash. -/
def readEscape : List Char → Option (Char × List Char)
  | [] => none
  | c :: rest =>
    if c = 'u' then readUnicode rest
    else if c = '"' ∨ c = '\\' ∨ c = '/' then some (c, rest)
    else if c = 'b' then some ('\x08', rest)
    else if c = 'f' then some ('\x0c', rest)
    else if c = 'n' then some ('\n', rest)
    else if c = 'r' then some ('\r', rest)
    else if c = 't' then some ('\t', rest)
    else none

/-- The characters of a string literal behind its opening quote. -/
def readChars : ℕ → List Char → Option (List Char × List Char)
  | 0, _ => none
  | _ + 1, [] => none
  | n + 1, c :: rest =>
    if c = '"' then some ([], rest)
    else if c = '\\' then do
      let (c, rest) ← readEscape rest
      let (cs, rest) ← readChars n rest
      some (c :: cs, rest)
    else if c.toNat < 32 then none
    else do
      let (cs, rest) ← readChars n rest
      some (c :: cs, rest)

def readString (cs : List Char) : Option (String × List Char) := do
  let (cs, rest) ← readChars (cs.length + 1) cs
  some (String.ofList cs, rest)

def readInt (cs : List Char) : Option (ℕ × List Char) :=
  let ds := cs.takeWhile Char.isDigit
  if ds = [] ∨ (ds.head? = some '0' ∧ ds ≠ ['0']) then none
  else some (Nat.ofDigitChars 10 ds 0, cs.dropWhile Char.isDigit)

def readFrac (cs : List Char) : Option (List (Fin 10) × List Char) :=
  if cs.head? = some '.' then
    let ds := cs.tail.takeWhile Char.isDigit
    if ds = [] then none else some (ds.map digitValue, cs.tail.dropWhile Char.isDigit)
  else some ([], cs)

def readSign (cs : List Char) : Bool × List Char :=
  if cs.head? = some '-' then (true, cs.tail)
  else if cs.head? = some '+' then (false, cs.tail)
  else (false, cs)

def readExp (cs : List Char) : Option (Option ℤ × List Char) :=
  if cs.head? = some 'e' ∨ cs.head? = some 'E' then
    let (neg, cs) := readSign cs.tail
    let ds := cs.takeWhile Char.isDigit
    let n : ℤ := Nat.ofDigitChars 10 ds 0
    if ds = [] then none else some (some (if neg then -n else n), cs.dropWhile Char.isDigit)
  else some (none, cs)

def readUnsigned (neg : Bool) (cs : List Char) : Option (Lit × List Char) := do
  let (int, rest) ← readInt cs
  let (frac, rest) ← readFrac rest
  let (exp, rest) ← readExp rest
  some (⟨neg, int, frac, exp⟩, rest)

def readNumber (cs : List Char) : Option (Lit × List Char) :=
  if cs.head? = some '-' then readUnsigned true cs.tail else readUnsigned false cs

def expect (text : List Char) (d : Doc) (cs : List Char) : Option (Doc × List Char) :=
  if text.isPrefixOf cs then some (d, cs.drop text.length) else none

/-- A comma (true), or the closing bracket (false). -/
def readSep (close : Char) (cs : List Char) : Option (Bool × List Char) :=
  match skipWs cs with
  | [] => none
  | c :: rest =>
    if c = ',' then some (true, rest) else if c = close then some (false, rest) else none

mutual
def readValue : ℕ → List Char → Option (Doc × List Char)
  | 0, _ => none
  | n + 1, cs =>
    match skipWs cs with
    | [] => none
    | c :: rest =>
      if c = '"' then do
        let (s, rest) ← readString rest
        some (.str s, rest)
      else if c = '[' then
        if (skipWs rest).head? = some ']' then some (.arr [], (skipWs rest).tail)
        else do
          let (items, rest) ← readItems n rest
          some (.arr items, rest)
      else if c = '{' then
        if (skipWs rest).head? = some '}' then some (.obj [], (skipWs rest).tail)
        else do
          let (members, rest) ← readMembers n rest
          some (.obj members, rest)
      else if c = 'n' then expect ['u', 'l', 'l'] .null rest
      else if c = 't' then expect ['r', 'u', 'e'] (.bool true) rest
      else if c = 'f' then expect ['a', 'l', 's', 'e'] (.bool false) rest
      else do
        let (l, rest) ← readNumber (c :: rest)
        some (.num l, rest)

def readItems : ℕ → List Char → Option (List Doc × List Char)
  | 0, _ => none
  | n + 1, cs => do
    let (d, rest) ← readValue n cs
    let (more, rest) ← readSep ']' rest
    if more then do
      let (items, rest) ← readItems n rest
      some (d :: items, rest)
    else some ([d], rest)

def readMembers : ℕ → List Char → Option (List (String × Doc) × List Char)
  | 0, _ => none
  | n + 1, cs =>
    if (skipWs cs).head? = some '"' then do
      let (name, rest) ← readString (skipWs cs).tail
      if (skipWs rest).head? = some ':' then do
        let (d, rest) ← readValue n (skipWs rest).tail
        let (more, rest) ← readSep '}' rest
        if more then do
          let (members, rest) ← readMembers n rest
          some ((name, d) :: members, rest)
        else some ([(name, d)], rest)
      else none
    else none
end

def readText (cs : List Char) : Option Doc := do
  let (d, rest) ← readValue (2 * cs.length + 2) cs
  if skipWs rest = [] then some d else none

/-! ## Bytes -/

def encode (s : String) : List UInt8 := s.toUTF8.data.toList

def decode (bytes : List UInt8) : Option String := String.fromUTF8? ⟨bytes.toArray⟩

/-- The document that a text in UTF-8 denotes. -/
def read (bytes : List UInt8) : Option Doc := (decode bytes).bind fun s => readText s.toList

/-- The compact text of a document, in UTF-8. -/
def write (d : Doc) : List UInt8 := encode (String.ofList d.text)

end JsonText
