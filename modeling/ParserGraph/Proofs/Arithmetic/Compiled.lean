import ParserGraph.Grammar.Kinds
import ParserGraph.Proofs.Arithmetic.Chain

/-!
# The compiled arithmetic grammar

The graph that the making of the arithmetic grammar ends in, node by node (`language_eq`). The
productions are forward references that nothing compiled leads to any more; a sequence that was made
on the way to another one stays unused as well.
-/

namespace ParserGraph.Arithmetic

/-- The compiled graph. -/
def compiled : Graph where
  nodes := #[
    { parser := .forward (.text "start") (some 13) },
    { parser := .forward (.text "exp") (some 17) },
    { parser := .forward (.text "e1") (some 21) },
    { parser := .forward (.text "e2") (some 22) },
    { parser := .forward (.text "paren_exp") (some 25) },
    { parser := .forward (.text "number") (some 26) },
    { parser := .forward (.text "plus") (some 27) },
    { parser := .forward (.text "times") (some 28) },
    { parser := .forward (.text "digit") (some 29) },
    { parser := .forward (.text "lparen") (some 30) },
    { parser := .forward (.text "rparen") (some 31) },
    { parser := .endOfInput, compacted := true },
    { parser := .sequence [.node 17, .node 11], compacted := true },
    { parser := .map (.node 12) first, compacted := true },
    { parser := .sequence [.node 27, .node 21], compacted := true },
    { parser := .repetition (.node 14), compacted := true },
    { parser := .sequence [.node 21, .node 15], compacted := true },
    { parser := .map (.node 16) foldSum, compacted := true },
    { parser := .sequence [.node 28, .node 22], compacted := true },
    { parser := .repetition (.node 18), compacted := true },
    { parser := .sequence [.node 22, .node 19], compacted := true },
    { parser := .map (.node 20) foldProduct, compacted := true },
    { parser := .alternation (.node 26) (.node 25), compacted := true },
    { parser := .sequence [.node 9, .node 1] },
    { parser := .sequence [.node 30, .node 17, .node 31], compacted := true },
    { parser := .map (.node 24) second, compacted := true },
    { parser := .map (.node 29) .integer, compacted := true },
    { parser := .literal (.character '+') (.character '+'), compacted := true },
    { parser := .literal (.character '*') (.character '*'), compacted := true },
    { parser := .literal (.character '0') (.character '9'), compacted := true },
    { parser := .literal (.character '(') (.character '('), compacted := true },
    { parser := .literal (.character ')') (.character ')'), compacted := true }]

/-- The grammar that was compiled. -/
def grammar : Grammar where
  kind := .arithmetic
  productions := [
    (.text "start", 0), (.text "exp", 1), (.text "e1", 2), (.text "e2", 3),
    (.text "paren_exp", 4), (.text "number", 5), (.text "plus", 6), (.text "times", 7),
    (.text "digit", 8), (.text "lparen", 9), (.text "rparen", 10)]
  root := some 13

theorem language_eq :
    ∃ log, GrammarKind.arithmetic.language = .ok { grammar, graph := compiled, log } :=
  ⟨_, rfl⟩

/-- The nodes of an expression: terms with plus signs between them. -/
def sums : Chain compiled where
  whole := .node 17
  parts := .node 16
  more := .node 15
  step := .node 14
  operand := .node 21
  operator := .node 27
  sign := '+'
  fold := foldSum
  operation := .sum
  whole_eq := rfl
  parts_eq := rfl
  more_eq := rfl
  step_eq := rfl
  operator_eq := rfl
  fold_eq := rfl

/-- The nodes of a term: factors with times signs between them. -/
def products : Chain compiled where
  whole := .node 21
  parts := .node 20
  more := .node 19
  step := .node 18
  operand := .node 22
  operator := .node 28
  sign := '*'
  fold := foldProduct
  operation := .product
  whole_eq := rfl
  parts_eq := rfl
  more_eq := rfl
  step_eq := rfl
  operator_eq := rfl
  fold_eq := rfl

end ParserGraph.Arithmetic
