import ParserGraph.Graph.Walk
import ParserGraph.Json

/-!
# Dumps of graphs

A dump numbers the nodes that can be reached from a root in the order of the walk, so that edges,
also those that close a cycle, can refer to nodes by their number.
-/

namespace ParserGraph

/-- What a dump says of a node besides its edges. -/
inductive Label
  | literal (lower upper : Value)
  | sequence
  | alternation
  | repetition
  | endOfInput
  | map (transform : String)
  | forward (name : Value)

/-- The label of a parser. -/
def Parser.label : Parser → Label
  | .literal lower upper => .literal lower upper
  | .sequence _ => .sequence
  | .alternation .. => .alternation
  | .repetition _ => .repetition
  | .endOfInput => .endOfInput
  | .map _ transform => .map transform.label
  | .forward name _ => .forward name

/-- The name of the kind that a label belongs to. -/
def Label.kind : Label → String
  | .literal .. => "Literal"
  | .sequence => "Sequence"
  | .alternation => "Alternation"
  | .repetition => "Repetition"
  | .endOfInput => "EndOfInput"
  | .map _ => "Map"
  | .forward _ => "Forward"

/-- The field that a label adds to an entry. -/
def Label.field? : Label → Option (String × Value)
  | .literal lower upper => some ("range", .list [lower, upper])
  | .map transform => some ("transform", .text transform)
  | .forward name => some ("name", name)
  | _ => none

/-- The dump of one node. Its number is its place in the list of entries. -/
structure Entry where
  label : Label
  children : List Nat

/-- The dump of a graph; the root has the number 0. -/
structure Dump where
  entries : List Entry

namespace Graph

/-- The dump of a visited object: its edges lead to the numbers of the objects at their ends. -/
def entry (g : Graph) (visited : List Object) (o : Object) : Except Fault Entry := do
  let p ← (Fault.defect (.notAParser o)).orElse (g.parser? o)
  let children ← p.children.mapM fun child =>
    Fault.noSuchKey.orElse (visited.findIdx? child.same)
  return { label := p.label, children }

/-- The dump of all that can be reached from an object. -/
def dump (g : Graph) (root : Object) : Except Fault Dump := do
  let visited ← g.reachable root
  return { entries := ← visited.mapM (g.entry visited) }

end Graph

/-- An entry as a dictionary. -/
def Entry.toValue (id : Nat) (e : Entry) : Value :=
  .dict ([("id", .int id), ("kind", .text e.label.kind)] ++ e.label.field?.toList ++
    [("children", .list (e.children.map fun (child : Nat) => .int child))])

/-- A dump as a dictionary. -/
def Dump.toValue (d : Dump) : Value :=
  .dict [("root", .int 0), ("nodes", .list (d.entries.mapIdx Entry.toValue))]

/-- The JSON text of a dump. -/
def Dump.text (d : Dump) : String :=
  Json.text d.toValue

end ParserGraph
