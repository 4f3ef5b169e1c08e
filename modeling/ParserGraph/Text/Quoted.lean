import ParserGraph.Text.Hex
import ParserGraph.Text.Printable

/-!
# Quoted texts and bytes

The form in which a text is shown inside another text: between quotation marks, on one line, and
with an escape for every character that would not be seen.
-/

namespace ParserGraph.Text

/-- The single quotation mark. -/
def apostrophe : Char := Char.ofNat 0x27

/-- Single marks, unless only single marks occur inside. -/
def quotationMark (cs : List Char) : Char :=
  if cs.contains apostrophe && !cs.contains '"' then '"' else apostrophe

/-- The escapes that have a letter of their own. -/
def escapeLetter? (c : Char) : Option Char :=
  if c = '\n' then some 'n' else if c = '\r' then some 'r' else if c = '\t' then some 't' else none

/-- A character inside a quoted text. -/
def escape (mark c : Char) : List Char :=
  if c = mark ∨ c = '\\' then ['\\', c]
  else match escapeLetter? c with
    | some letter => ['\\', letter]
    | none =>
      if isPrintable c then [c]
      else if c.toNat < 0x100 then '\\' :: 'x' :: hex 2 c.toNat
      else if c.toNat < 0x10000 then '\\' :: 'u' :: hex 4 c.toNat
      else '\\' :: 'U' :: hex 8 c.toNat

/-- A text between its quotation marks. -/
def quoted (s : String) : String :=
  let cs := s.toList
  let mark := quotationMark cs
  String.ofList (mark :: cs.flatMap (escape mark) ++ [mark])

/-- A byte inside a quoted row of bytes: ASCII is shown as a character. -/
def escapeByte (mark : Char) (b : UInt8) : List Char :=
  let c := Char.ofNat b.toNat
  if b < 0x7F then escape mark c else '\\' :: 'x' :: hex 2 b.toNat

/-- A row of bytes between quotation marks, after the letter that tells it from a text. -/
def quotedBytes (bytes : List UInt8) : String :=
  let mark := quotationMark (bytes.map fun b => Char.ofNat b.toNat)
  String.ofList ('b' :: mark :: bytes.flatMap (escapeByte mark) ++ [mark])

end ParserGraph.Text
