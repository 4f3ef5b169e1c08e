import ParserGraph.Grammar.Basic

/-!
# The arithmetic grammar

Sums and products of single digits, with parentheses, evaluated while they are read:

    start    => exp end
    exp      => e1 (plus e1)*
    e1       => e2 (times e2)*
    e2       => number | parenExp
    parenExp => lparen exp rparen
    number   => digit

The nesting of the productions gives products precedence over sums. `parenExp` refers back to
`exp`, which closes the only cycle.
-/

namespace ParserGraph.Arithmetic

/-- Values are reduced by this after every sum and product, so that they stay small. -/
def modulus : Nat := 0xFFFF

def first : Transform := .named "ExpressionGrammar._first" (Value.item 0)

def second : Transform := .named "ExpressionGrammar._second" (Value.item 1)

/-- Adds up the first operand and those that follow it. -/
def foldSum : Transform := .named "ExpressionGrammar._fold_sum" (Value.fold modulus Value.add)

/-- Multiplies the first operand by those that follow it. -/
def foldProduct : Transform :=
  .named "ExpressionGrammar._fold_product" (Value.fold modulus Value.multiply)

open ParserGraph.Graph ParserGraph.Grammar.Define

/-- One character. -/
def char (c : Char) : Build NodeId :=
  add (.literal (.character c) (.character c))

/-- An operand, and any number of further ones after an operator, folded into one value. -/
def chain (operand operator : Object) (fold : Transform) : Build NodeId := do
  let further ← star (.node (← andThen operator operand))
  mapTo (.node (← andThen operand (.node further))) fold

/-- The productions of the grammar; the result is the one to compile from. -/
def define : Grammar.Define Object := do
  let start ← production "start"
  let exp ← production "exp"
  let e1 ← production "e1"
  let e2 ← production "e2"
  let parenExp ← production "paren_exp"
  let number ← production "number"
  let plus ← production "plus"
  let times ← production "times"
  let digit ← production "digit"
  let lparen ← production "lparen"
  let rparen ← production "rparen"
  rule start do mapTo (.node (← andThen exp (.node (← add .endOfInput)))) first
  rule exp (chain e1 plus foldSum)
  rule e1 (chain e2 times foldProduct)
  rule e2 (orElse number parenExp)
  rule parenExp do mapTo (.node (← andThen (.node (← andThen lparen exp)) rparen)) second
  rule number (mapTo digit .integer)
  rule plus (char '+')
  rule times (char '*')
  rule digit (add (.literal (.character '0') (.character '9')))
  rule lparen (char '(')
  rule rparen (char ')')
  return start

end ParserGraph.Arithmetic
