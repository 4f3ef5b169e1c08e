import ParserGraph.Fault.Message
import ParserGraph.Graph.Basic

/-!
# The text of a node

A node is shown with all its parts. A node inside its own text is shown as dots, and the target of
a forward reference is not shown at all. So a text may hold a value that cannot be written, or lose
it, when an edge is redirected past a forward reference; and with the text the message of a defect
that shows the node.
-/

namespace ParserGraph.Graph

/-- The text of an object, given the text of an object that is no node; `unfinished` are the nodes
whose text is being written. Each nested node is another one, so a depth of `g.size + 1` is
enough. -/
def displayFrom (g : Graph) (other : Object → Except Fault String) :
    Nat → List NodeId → Object → Except Fault String
  | 0, _, _ => .error .tooDeep
  | depth + 1, unfinished, .node id => do
    if unfinished.contains id then return "..."
    let part := g.displayFrom other depth (id :: unfinished)
    match g.parser? (.node id) with
    | some (.literal lower upper) =>
      return "Literal(lower=" ++ (← lower.display) ++ ", upper=" ++ (← upper.display) ++ ")"
    | some (.sequence parsers) =>
      return "Sequence(parsers=[" ++ ", ".intercalate (← parsers.mapM part) ++ "])"
    | some (.alternation first second) =>
      return "Alternation(first=" ++ (← part first) ++ ", second=" ++ (← part second) ++ ")"
    | some (.repetition parser) => return "Repetition(parser=" ++ (← part parser) ++ ")"
    | some .endOfInput => return "EndOfInput()"
    | some (.map parser transform) =>
      return "Map(parser=" ++ (← part parser) ++ ", transform=" ++
        (← Fault.wrongValue.orElse transform.display) ++ ")"
    | some (.forward name _) => return "Forward(name=" ++ (← name.display) ++ ")"
    | none => other (.node id)
  | _ + 1, _, o => other o

/-- The text of an object, given the text of an object that is no node. -/
def display (g : Graph) (other : Object → Except Fault String) (o : Object) :
    Except Fault String :=
  g.displayFrom other (g.size + 1) [] o

/-- The text of an object that is no node, where it matters only whether there is one. Cursors and
grammars are kept elsewhere, and always have a text. -/
def displayValue : Object → Except Fault String
  | .value v => v.display
  | _ => .ok "..."

/-- What a defect ends an evaluation with. Its message is written when it is raised: where a value in
the message cannot be written, the fault is this and no longer the defect. -/
def raise (g : Graph) (d : Defect) : Fault :=
  match d.message (g.display displayValue) with
  | .error .wrongValue => .wrongValue
  | _ => .defect d

end ParserGraph.Graph
