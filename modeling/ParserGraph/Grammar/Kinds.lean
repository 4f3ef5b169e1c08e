import ParserGraph.Grammar.Arithmetic
import ParserGraph.Grammar.Digits

/-!
# Grammars by their kind

Makes the grammar of a kind in a graph, or in a graph of its own.
-/

namespace ParserGraph.GrammarKind

/-- A new grammar of the kind. A bare grammar has nothing to compile. -/
def make (kind : GrammarKind) (g : Graph) : Except Fault Language :=
  match kind with
  | .bare => .ok { grammar := { kind }, graph := g }
  | .arithmetic => Grammar.make kind Arithmetic.define g
  | .digits => Grammar.make kind Digits.define g

/-- A new grammar of the kind in a graph of its own. -/
def language (kind : GrammarKind) : Except Fault Language :=
  kind.make {}

end ParserGraph.GrammarKind
