import ParserGraph.Number.Binary
import ParserGraph.Text.Blank
import ParserGraph.Text.DecimalDigit

/-!
# Numbers read from a text

A numeral is a row of digits in which single underscores may stand between two digits. An integer
is a numeral after an optional sign, a real number has a point, an exponent or a word besides.
The readers of one format differ only in what they accept around the digits.
-/

namespace ParserGraph.Number

open Text

/-- Decimal numerals longer than this are refused. -/
def maxDigits : Nat := 4300

/-- The value of an ASCII digit or letter as a digit. -/
def digitValue? (c : Char) : Option Nat :=
  if '0' ≤ c ∧ c ≤ '9' then some (c.toNat - 0x30)
  else if 'a' ≤ c ∧ c ≤ 'z' then some (c.toNat - 0x61 + 10)
  else if 'A' ≤ c ∧ c ≤ 'Z' then some (c.toNat - 0x41 + 10)
  else none

/-- The value of a digit of a base. -/
def digit? (base : Nat) (c : Char) : Option Nat :=
  (digitValue? c).filter (· < base)

/-- No two underscores follow each other. -/
def singleUnderscores : List Char → Bool
  | a :: b :: cs => !(a = '_' && b = '_') && singleUnderscores (b :: cs)
  | _ => true

/-- The digits of a text without its underscores, each of which stood between two others. -/
def withoutUnderscores? (cs : List Char) : Option (List Char) :=
  if cs.head? ≠ some '_' ∧ cs.getLast? ≠ some '_' ∧ singleUnderscores cs then
    some (cs.filter (· ≠ '_'))
  else none

/-- The number that a row of digits denotes. -/
def ofDigits (base : Nat) (digits : List Nat) : Nat :=
  digits.foldl (fun n d => n * base + d) 0

/-- The value of a numeral. -/
def numeral? (base : Nat) (cs : List Char) : Option Nat := do
  let digits ← (← withoutUnderscores? cs).mapM (digit? base)
  if digits.isEmpty ∨ base = 10 ∧ maxDigits < digits.length then none else some (ofDigits base digits)

/-- The sign in front of a number, and the rest. -/
def splitSign : List Char → Bool × List Char
  | '-' :: cs => (true, cs)
  | '+' :: cs => (false, cs)
  | cs => (false, cs)

/-- An integer from its sign and its magnitude. -/
def signed (negative : Bool) (n : Nat) : Int :=
  if negative then -n else n

/-- Digits of other scripts become ASCII digits. -/
def toAsciiDigit (c : Char) : Char :=
  if c.toNat < 0x7F then c
  else match decimalDigit? c with
    | some d => Char.ofNat (0x30 + d)
    | none => c

/-- An integer in base ten, with blanks around it and digits of any script. -/
def integer? (cs : List Char) : Option Int :=
  let (negative, digits) := splitSign ((trim cs).map toAsciiDigit)
  (numeral? 10 digits).map (signed negative)

/-- An unsigned number whose base is told by its first two characters; without them the base is
ten, and only zero may begin with a zero. -/
def based? : List Char → Option Nat
  | '0' :: c :: cs =>
    let rest := if cs.head? = some '_' then cs.tail else cs
    if c = 'x' ∨ c = 'X' then numeral? 16 rest
    else if c = 'o' ∨ c = 'O' then numeral? 8 rest
    else if c = 'b' ∨ c = 'B' then numeral? 2 rest
    else (numeral? 10 ('0' :: c :: cs)).filter (· = 0)
  | cs => numeral? 10 cs

/-- An integer in any base that its text names. -/
def basedInteger? (cs : List Char) : Option Int :=
  let (negative, digits) := splitSign ((trim cs).map toAsciiDigit)
  (based? digits).map (signed negative)

/-- The float nearest to `digits * 10 ^ exponent`; a number far beyond the floats is infinite, one
far below them is zero. -/
def scaled (negative : Bool) (digits : Nat) (exponent : Int) : Float :=
  let size : Int := (toString digits).length + exponent
  let magnitude :=
    if digits = 0 ∨ size < -400 then nearest? negative 0 1
    else if 400 < size then none
    else nearest? negative (digits * wholePower 10 exponent) (wholePower 10 (-exponent))
  magnitude.getD (Float.ofBits (if negative then 0xFFF0000000000000 else 0x7FF0000000000000))

/-- A row of ASCII digits, possibly empty, and the rest. -/
def spanDigits (cs : List Char) : List Nat × List Char :=
  ((cs.takeWhile fun c => (digit? 10 c).isSome).filterMap (digit? 10),
    cs.dropWhile fun c => (digit? 10 c).isSome)

/-- The exponent at the end of a number; an absent one is zero. -/
def exponent? : List Char → Option Int
  | [] => some 0
  | e :: cs =>
    if e = 'e' ∨ e = 'E' then
      let (negative, rest) := splitSign cs
      match spanDigits rest with
      | (digits, []) =>
        if digits.isEmpty then none else some (signed negative (ofDigits 10 digits))
      | _ => none
    else none

/-- A real number without blanks and underscores: digits with a point and an exponent, or one of
the words for the infinities and for no number. -/
def plainReal? (cs : List Char) : Option Float :=
  let (negative, cs) := splitSign cs
  let word := String.ofList (cs.map Char.toLower)
  if word = "inf" ∨ word = "infinity" then
    some (Float.ofBits (if negative then 0xFFF0000000000000 else 0x7FF0000000000000))
  else if word = "nan" then some (Float.ofBits 0x7FF8000000000000)
  else
    let (whole, rest) := spanDigits cs
    let (places, rest) := match rest with
      | '.' :: rest => spanDigits rest
      | _ => ([], rest)
    if whole.isEmpty ∧ places.isEmpty then none
    else (exponent? rest).map fun e =>
      scaled negative (ofDigits 10 (whole ++ places)) (e - places.length)

/-- Every underscore stands between two ASCII digits. -/
def underscoresBetweenDigits : List Char → Bool
  | [] => true
  | '_' :: _ => false
  | c :: '_' :: d :: cs =>
    (digit? 10 c).isSome && (digit? 10 d).isSome && underscoresBetweenDigits (d :: cs)
  | [_, '_'] => false
  | _ :: cs => underscoresBetweenDigits cs

/-- A real number with blanks around it, digits of any script, and underscores between digits. -/
def real? (cs : List Char) : Option Float :=
  let cs := (trim cs).map toAsciiDigit
  if underscoresBetweenDigits cs then plainReal? (cs.filter (· ≠ '_')) else none

end ParserGraph.Number
