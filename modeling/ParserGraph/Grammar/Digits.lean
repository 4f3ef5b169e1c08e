import ParserGraph.Grammar.Basic

/-!
# The digits grammar

A row of decimal digits, read as one number:

    start  => number end
    number => digit digit*

Leading zeros are allowed.
-/

namespace ParserGraph.Digits

/-- How the functions of this grammar are shown. -/
def functionName : String := "DigitsGrammar.__init__.<locals>.<lambda>"

/-- The number that the matched digits denote. -/
def toNumber : Transform :=
  .named functionName fun v => do Value.toInteger (← v.join)

def first : Transform := .named functionName (Value.item 0)

open ParserGraph.Graph ParserGraph.Grammar.Define

/-- The productions of the grammar; the result is the one to compile from. -/
def define : Grammar.Define Object := do
  let start ← production "start"
  let number ← production "number"
  let digit ← production "digit"
  rule start do mapTo (.node (← andThen number (.node (← add .endOfInput)))) first
  rule number do mapTo (.node (← plus digit)) toNumber
  rule digit (add (.literal (.character '0') (.character '9')))
  return start

end ParserGraph.Digits
