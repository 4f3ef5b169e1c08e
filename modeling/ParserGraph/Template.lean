import ParserGraph.Fault
import ParserGraph.Number.Binary
import ParserGraph.Text.Hex

/-!
# Templates

A template is a row of characters with directives that each stand for the text of a number. A
directive is a percent sign, flags, a width, a precision and the letter of a conversion; a percent
sign that is doubled stands for itself. `Template.fill` puts one number into a template: there must
be exactly one place that takes it.
-/

namespace ParserGraph.Template

/-- What a template is made of, which decides what its conversions give. -/
inductive Medium
  | text
  | bytes
deriving DecidableEq

/-- How far a directive is read. -/
inductive Stage
  | start
  | flags
  | width
  | afterWidth
  | point
  | precision
  | afterPrecision
  | afterSize
deriving DecidableEq

/-- A directive. -/
structure Directive where
  stage : Stage := .start
  /-- The form that shows what the number is written in. -/
  alternate : Bool := false
  zeros : Bool := false
  left : Bool := false
  plus : Bool := false
  space : Bool := false
  width : Nat := 0
  precision : Option Nat := none

/-! ## Numbers in a directive -/

/-- The text of a number, before it is padded to the width. -/
structure Shown where
  /-- The sign and what tells the base. -/
  lead : List Char := []
  body : List Char
  /-- Only numerals are padded with zeros. -/
  numeral : Bool := true

/-- Pads a text to the width of a directive. -/
def Directive.pad (d : Directive) (s : Shown) : List Char :=
  let gap (c : Char) := List.replicate (d.width - (s.lead.length + s.body.length)) c
  if d.left then s.lead ++ s.body ++ gap ' '
  else if d.zeros && s.numeral then s.lead ++ gap '0' ++ s.body
  else gap ' ' ++ s.lead ++ s.body

/-- Padding reaches the width, and cuts nothing. -/
theorem Directive.length_pad (d : Directive) (s : Shown) :
    (d.pad s).length = max d.width (s.lead.length + s.body.length) := by
  unfold pad
  split
  · simp only [List.length_append, List.length_replicate]; omega
  · split <;> simp only [List.length_append, List.length_replicate] <;> omega

/-- What stands in front of a number that is not negative. -/
def Directive.sign (d : Directive) : List Char :=
  if d.plus then ['+'] else if d.space then [' '] else []

/-- The digits of a number in a base of at most sixteen. -/
def digits (base n : Nat) : List Char :=
  Nat.toDigits base n

/-- Digits, with zeros in front up to a count. -/
def atLeast (count : Nat) (cs : List Char) : List Char :=
  List.replicate (count - cs.length) '0' ++ cs

/-- Digits, with zeros at their end up to a count. -/
def extended (count : Nat) (cs : List Char) : List Char :=
  cs ++ List.replicate (count - cs.length) '0'

/-- A numeral in a base; the letter of the base shows in the alternate form. -/
def Directive.numeral (d : Directive) (base : Nat) (letter : Option Char) (n : Nat) : Shown where
  lead := d.sign ++ (if d.alternate then letter.elim [] (['0', ·]) else [])
  body := atLeast (d.precision.getD 0) (digits base n)

/-- Digits after a point; without any there is a point only in the alternate form. -/
def Directive.places (d : Directive) (cs : List Char) : List Char :=
  if cs.isEmpty && !d.alternate then [] else '.' :: cs

/-- The digits without the zeros at their end. -/
def stripZeros (cs : List Char) : List Char :=
  (cs.reverse.dropWhile (· = '0')).reverse

/-- A number rounded to at most `count` digits, a tie to the even one, and the exponent of its first
digit. -/
def rounded (count n : Nat) : List Char × Nat :=
  let size := (digits 10 n).length
  if size ≤ count then (digits 10 n, size - 1)
  else
    let cs := digits 10 (Number.divideRounded n (Nat.pow 10 (size - count)))
    (cs.take count, size - 1 + (cs.length - count))

/-- A number as digits with places. -/
def Directive.fixed (d : Directive) (n : Nat) : List Char :=
  digits 10 n ++ d.places (List.replicate (d.precision.getD 6) '0')

/-- Digits as one digit with places, and an exponent of at least two digits. -/
def Directive.withExponent (d : Directive) (cs : List Char) (exponent : Nat) : List Char :=
  cs.take 1 ++ d.places (cs.drop 1) ++ ['e', '+'] ++ atLeast 2 (digits 10 exponent)

/-- The largest width and the largest precision. -/
def maxWidth : Nat := 0x7FFFFFFFFFFFFFFF

def maxPrecision : Nat := 0x7FFFFFFF

/-- The largest precision of a numeral. -/
def maxNumeralPrecision : Nat := maxPrecision - 3

/-- The places of a number with an exponent. The largest precision leaves none. -/
def Directive.placesWithExponent (d : Directive) : Nat :=
  let precision := d.precision.getD 6
  if precision = maxPrecision then 0 else precision

/-- A number as one digit with places, and an exponent. -/
def Directive.scientific (d : Directive) (n : Nat) : List Char :=
  let count := d.placesWithExponent + 1
  let (cs, exponent) := rounded count n
  d.withExponent (extended count cs) exponent

/-- A number with as many digits as the precision says, with an exponent if it has more before the
point. Zeros at the end are written in the alternate form only. -/
def Directive.general (d : Directive) (n : Nat) : List Char :=
  let count := max (d.precision.getD 6) 1
  let (cs, exponent) := rounded count n
  let cs := if d.alternate then extended count cs else cs
  let kept (places : List Char) := if d.alternate then places else stripZeros places
  if exponent < count then cs.take (exponent + 1) ++ d.places (kept (cs.drop (exponent + 1)))
  else d.withExponent (cs.take 1 ++ kept (cs.drop 1)) exponent

/-- The natural number that the float nearest to a natural number is. -/
def nearestWhole (n : Nat) : Except Fault Nat := do
  match Number.meaning (← Fault.overflow.orElse (Number.ofInt? n)) with
  | .finite _ magnitude =>
    let (num, den) := magnitude.ratio
    return num / den
  | _ => throw .overflow

/-- The number as a character of the medium. -/
def character (medium : Medium) (n : Nat) : Except Fault Char :=
  let bound := match medium with
    | .text => 0x110000
    | .bytes => 0x100
  if n < bound then .ok (Char.ofNat n) else .error .overflow

/-- The text of a number for the letter of a conversion. Another letter is a wrong value. -/
def Directive.show (d : Directive) (medium : Medium) (n : Nat) (letter : Char) :
    Except Fault Shown :=
  let whole (base : Nat) (name : Option Char) : Except Fault Shown := do
    if maxNumeralPrecision < d.precision.getD 0 then throw .overflow
    Fault.checkSize (d.precision.getD 0)
    return d.numeral base name n
  let real (places : Nat) (text : Nat → List Char) : Except Fault Shown := do
    Fault.checkSize places
    return { lead := d.sign, body := text (← nearestWhole n) }
  let fixed := real (d.precision.getD 6) d.fixed
  let scientific := real d.placesWithExponent d.scientific
  let general := real (if d.alternate then d.precision.getD 6 else 0) d.general
  let plain : Shown :=
    { body := (digits 10 n).take (d.precision.getD (digits 10 n).length), numeral := false }
  let upper (s : Shown) : Shown :=
    { s with lead := s.lead.map Char.toUpper, body := s.body.map Char.toUpper }
  match letter with
  | 'd' | 'i' | 'u' => whole 10 none
  | 'o' => whole 8 (some 'o')
  | 'x' => whole 16 (some 'x')
  | 'X' => upper <$> whole 16 (some 'x')
  | 'f' | 'F' => fixed
  | 'e' => scientific
  | 'E' => upper <$> scientific
  | 'g' => general
  | 'G' => upper <$> general
  | 'c' => (character medium n).map fun c => { body := [c], numeral := false }
  | 'a' | 'r' => .ok plain
  | 's' => if medium = .text then .ok plain else .error .wrongType
  | 'b' => .error (if medium = .text then .wrongValue else .wrongType)
  | _ => .error .wrongValue

/-! ## Filling -/

/-- What filling a template has come to: the characters so far, the last one first, whether the
number was taken, and the directive that is being read. -/
structure Filling where
  output : List Char := []
  taken : Bool := false
  directive : Option Directive := none

/-- Takes the number, which there is only once. -/
def Filling.take (f : Filling) : Except Fault Filling :=
  if f.taken then .error .wrongType else .ok { f with taken := true }

/-- Appends a digit to a number that must not exceed a bound. -/
def extend (bound n : Nat) (c : Char) : Except Fault Nat :=
  let m := 10 * n + (c.toNat - 0x30)
  if m ≤ bound then .ok m else .error .wrongValue

/-- Sets the flag that a character stands for. In bytes `z` is a flag too, which changes nothing: it
takes the sign from a zero, and only a number that is not negative is shown. -/
def Directive.flag? (medium : Medium) (d : Directive) (c : Char) : Option Directive :=
  match c with
  | '-' => some { d with stage := .flags, left := true }
  | '+' => some { d with stage := .flags, plus := true }
  | ' ' => some { d with stage := .flags, space := true }
  | '#' => some { d with stage := .flags, alternate := true }
  | '0' => some { d with stage := .flags, zeros := true }
  | 'z' => if medium = .bytes then some { d with stage := .flags } else none
  | _ => none

/-- The stages up to the flags, and up to the width. -/
def Stage.beforeWidth : Stage → Bool
  | .start | .flags => true
  | _ => false

def Stage.beforePoint : Stage → Bool
  | .start | .flags | .width | .afterWidth => true
  | _ => false

/-- Shows the number for the letter that ends a directive. -/
def Filling.convert (medium : Medium) (n : Nat) (f : Filling) (d : Directive) (letter : Char) :
    Except Fault Filling := do
  let f ← f.take
  let shown ← d.show medium n letter
  Fault.checkSize d.width
  return { f with output := (d.pad shown).reverse ++ f.output, directive := none }

/-- Reads one more character of a directive. -/
def Filling.readDirective (medium : Medium) (n : Nat) (f : Filling) (d : Directive) (c : Char) :
    Except Fault Filling := do
  let go (d : Directive) : Filling := { f with directive := some d }
  if d.stage = .start ∧ c = '%' then return { f with output := '%' :: f.output, directive := none }
  if d.stage = .start ∧ c = '(' then throw .wrongType
  if d.stage.beforeWidth then
    if let some d := d.flag? medium c then return go d
    if c = '*' then
      return { ← f.take with directive := some { d with stage := .afterWidth, width := n } }
  if (d.stage.beforeWidth ∨ d.stage = .width) ∧ c.isDigit then
    return go { d with stage := .width, width := ← extend maxWidth d.width c }
  if d.stage.beforePoint ∧ c = '.' then
    return go { d with stage := .point, precision := some 0 }
  if d.stage = .point ∧ c = '*' then
    return { ← f.take with
      directive := some { d with stage := .afterPrecision, precision := some n } }
  if (d.stage = .point ∨ d.stage = .precision) ∧ c.isDigit then
    let precision ← extend maxPrecision (d.precision.getD 0) c
    return go { d with stage := .precision, precision := some precision }
  if d.stage ≠ .afterSize ∧ (c = 'h' ∨ c = 'l' ∨ c = 'L') then
    return go { d with stage := .afterSize }
  f.convert medium n d c

/-- Reads one more character of a template. -/
def Filling.read (medium : Medium) (n : Nat) (f : Filling) (c : Char) : Except Fault Filling :=
  match f.directive with
  | some d => f.readDirective medium n d c
  | none =>
    if c = '%' then .ok { f with directive := some {} } else .ok { f with output := c :: f.output }

/-- Puts a number into a template. -/
def fill (medium : Medium) (n : Nat) (cs : List Char) : Except Fault (List Char) := do
  let f ← cs.foldlM (Filling.read medium n) {}
  if f.directive.isSome then throw .wrongValue
  if !f.taken then throw .wrongType
  return f.output.reverse

end ParserGraph.Template
