import ParserGraph.Json
import ParserGraph.Number.Reading

/-!
# Reading JSON texts

The reader of the JSON grammar: blanks between tokens, words, numbers, strings with all their
escapes, lists and dictionaries. A number without a fraction and an exponent is an integer. Two
escapes in a row that are a surrogate pair are one character, and a lone surrogate is refused. Of
two entries with one key in a dictionary the later counts.

Everything that is read takes characters away, so a reader that may take as many steps as there are
characters left, and one more, is never cut short.
-/

namespace ParserGraph.Json

/-! ## Strings -/

/-- A UTF-16 unit from its four hexadecimal digits, in upper or lower case. -/
def readUnit : List Char → Option (Nat × List Char)
  | a :: b :: c :: d :: cs => do
    let digits ← [a, b, c, d].mapM (Number.digit? 16)
    return (Number.ofDigits 16 digits, cs)
  | _ => none

/-- The second unit of a surrogate pair, with the escape around it. -/
def readLow : List Char → Option (Nat × List Char)
  | '\\' :: 'u' :: cs => (readUnit cs).filter fun (low, _) => 0xDC00 ≤ low && low < 0xE000
  | _ => none

/-- The character of one unit, or of a surrogate pair that begins with it. -/
def readCodePoint (unit : Nat) (cs : List Char) : Option (Char × List Char) :=
  if unit < 0xD800 ∨ 0xE000 ≤ unit then some (Char.ofNat unit, cs)
  else if unit < 0xDC00 then do
    let (low, cs) ← readLow cs
    return (Char.ofNat (0x10000 + (unit - 0xD800) * 0x400 + (low - 0xDC00)), cs)
  else none

/-- The character that a letter stands for after a backslash. -/
def unescape? (c : Char) : Option Char :=
  if c = '"' ∨ c = '\\' ∨ c = '/' then some c
  else if c = 'b' then some (Char.ofNat 0x8)
  else if c = 'f' then some (Char.ofNat 0xC)
  else if c = 'n' then some '\n'
  else if c = 'r' then some '\r'
  else if c = 't' then some '\t'
  else none

/-- The character of an escape, after its backslash. -/
def readEscape : List Char → Option (Char × List Char)
  | [] => none
  | 'u' :: cs => do
    let (unit, cs) ← readUnit cs
    readCodePoint unit cs
  | c :: cs => (unescape? c).map (·, cs)

/-- The characters up to the quotation mark that ends a string. -/
def readCharacters : Nat → List Char → Option (List Char × List Char)
  | 0, _ => none
  | _, [] => none
  | _, '"' :: cs => some ([], cs)
  | steps + 1, '\\' :: cs => do
    let (c, cs) ← readEscape cs
    let (text, cs) ← readCharacters steps cs
    return (c :: text, cs)
  | steps + 1, c :: cs =>
    if c.toNat < 0x20 then none
    else do
      let (text, cs) ← readCharacters steps cs
      return (c :: text, cs)

/-- A string, after its first quotation mark. -/
def readString (cs : List Char) : Option (String × List Char) :=
  (readCharacters (cs.length + 1) cs).map fun (text, cs) => (String.ofList text, cs)

/-! ## Numbers and words -/

/-- A row of digits, at least one. -/
def readDigits (cs : List Char) : Option (List Char × List Char) :=
  match cs.takeWhile Char.isDigit with
  | [] => none
  | digits => some (digits, cs.dropWhile Char.isDigit)

/-- The digits in front of a point. Only zero begins with a zero. -/
def readWhole (cs : List Char) : Option (List Char × List Char) :=
  (readDigits cs).filter fun (digits, _) => digits.head? ≠ some '0' || digits.length = 1

/-- A point and the digits after it, or nothing. -/
def readFraction : List Char → Option (List Char × List Char)
  | '.' :: cs => (readDigits cs).map fun (digits, cs) => ('.' :: digits, cs)
  | cs => some ([], cs)

/-- The characters of an exponent, or nothing. -/
def readExponent : List Char → Option (List Char × List Char)
  | [] => some ([], [])
  | e :: cs =>
    if e = 'e' ∨ e = 'E' then
      let sign := cs.takeWhile fun c => c = '+' || c = '-'
      if 1 < sign.length then none
      else (readDigits (cs.drop sign.length)).map fun (digits, cs) => (e :: sign ++ digits, cs)
    else some ([], e :: cs)

/-- A number after its sign. -/
def readMagnitude (negative : Bool) (cs : List Char) : Option (Value × List Char) := do
  let (whole, cs) ← readWhole cs
  let (fraction, cs) ← readFraction cs
  let (exponent, cs) ← readExponent cs
  if (fraction ++ exponent).isEmpty then
    return (.int (Number.signed negative (Nat.ofDigitChars 10 whole 0)), cs)
  else
    let x ← Number.plainReal? (whole ++ fraction ++ exponent)
    return (.float (if negative then -x else x), cs)

def readNumber : List Char → Option (Value × List Char)
  | '-' :: cs => readMagnitude true cs
  | cs => readMagnitude false cs

/-- One of the three words that are values. -/
def readWord : List Char → Option (Value × List Char)
  | 'n' :: 'u' :: 'l' :: 'l' :: cs => some (.null, cs)
  | 't' :: 'r' :: 'u' :: 'e' :: cs => some (.bool true, cs)
  | 'f' :: 'a' :: 'l' :: 's' :: 'e' :: cs => some (.bool false, cs)
  | _ => none

/-! ## Values -/

/-- A character that may stand between tokens. -/
def isSpace (c : Char) : Bool :=
  c = ' ' || c = '\t' || c = '\n' || c = '\r'

def skip (cs : List Char) : List Char :=
  cs.dropWhile isSpace

mutual

/-- A value, after blanks. -/
def readValue : Nat → List Char → Option (Value × List Char)
  | 0, _ => none
  | steps + 1, cs =>
    match skip cs with
    | '"' :: cs => (readString cs).map fun (s, cs) => (.text s, cs)
    | '[' :: cs =>
      match skip cs with
      | ']' :: cs => some (.list [], cs)
      | _ => do
        let (v, cs) ← readValue steps cs
        let (items, cs) ← readMoreItems steps cs
        return (.list (v :: items), cs)
    | '\x7b' :: cs =>
      match skip cs with
      | '\x7d' :: cs => some (.dict [], cs)
      | _ => do
        let (field, cs) ← readField steps cs
        let (fields, cs) ← readMoreFields steps cs
        return (.ofEntries (field :: fields), cs)
    | cs => (readWord cs).orElse fun () => readNumber cs

/-- The items after the first, and the end of the list. -/
def readMoreItems : Nat → List Char → Option (List Value × List Char)
  | 0, _ => none
  | steps + 1, cs =>
    match skip cs with
    | ']' :: cs => some ([], cs)
    | ',' :: cs => do
      let (v, cs) ← readValue steps cs
      let (items, cs) ← readMoreItems steps cs
      return (v :: items, cs)
    | _ => none

/-- A key and its value. -/
def readField : Nat → List Char → Option ((String × Value) × List Char)
  | 0, _ => none
  | steps + 1, cs =>
    match skip cs with
    | '"' :: cs => do
      let (key, cs) ← readString cs
      match skip cs with
      | ':' :: cs => do
        let (v, cs) ← readValue steps cs
        return ((key, v), cs)
      | _ => none
    | _ => none

/-- The entries after the first, and the end of the dictionary. -/
def readMoreFields : Nat → List Char → Option (List (String × Value) × List Char)
  | 0, _ => none
  | steps + 1, cs =>
    match skip cs with
    | '\x7d' :: cs => some ([], cs)
    | ',' :: cs => do
      let (field, cs) ← readField steps cs
      let (fields, cs) ← readMoreFields steps cs
      return (field :: fields, cs)
    | _ => none

end

/-- The value of a whole text. -/
def read? (s : String) : Option Value :=
  match readValue (s.toList.length + 1) s.toList with
  | some (v, cs) => if (skip cs).isEmpty then some v else none
  | none => none

end ParserGraph.Json
