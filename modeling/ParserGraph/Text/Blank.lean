import ParserGraph.Text.Ranges

/-!
# Blanks around a number

The characters that may stand before and after a number in a text.
-/

namespace ParserGraph.Text

/-- The white space of a text: tabs and line ends, the space, and the spaces of other scripts. -/
def blanks : Ranges := [
  (0x9, 0xD), (0x20, 0x20), (0x85, 0x85), (0xA0, 0xA0), (0x1680, 0x1680), (0x2000, 0x200A),
  (0x2028, 0x2029), (0x202F, 0x202F), (0x205F, 0x205F), (0x3000, 0x3000)]

/-- A blank before or after a number does not belong to it. -/
def isBlank (c : Char) : Bool :=
  blanks.contains c.toNat

/-- A text without the blanks at its two ends. -/
def trim (cs : List Char) : List Char :=
  ((cs.dropWhile isBlank).reverse.dropWhile isBlank).reverse

end ParserGraph.Text
