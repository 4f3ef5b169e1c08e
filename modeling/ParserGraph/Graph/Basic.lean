import ParserGraph.Transform

/-!
# Graphs of parser nodes

A graph is a store of nodes that are told apart by their number alone. Every edge of a node holds
an object; the edges of a finished grammar hold nodes. A forward reference is a node that can be
made before what it stands for: cycles are closed through forward references only, and compaction
(`ParserGraph.Graph.Compaction`) marks the nodes whose edges it has redirected past them.
-/

namespace ParserGraph

/-- A parser. -/
inductive Parser
  /-- One element within a range. -/
  | literal (lower upper : Value)
  /-- All of the parsers, one after the other. They stand in a list that can be written to and is the
  sequence's own. -/
  | sequence (parsers : List Object)
  /-- The first parser, or else the second. -/
  | alternation (first second : Object)
  /-- The parser as often as it matches. -/
  | repetition (parser : Object)
  | endOfInput
  /-- The parser, with its result transformed. -/
  | map (parser : Object) (transform : Transform)
  /-- A reference by name to a node that may not be known yet. -/
  | forward (name : Value) (target : Option NodeId)
deriving Inhabited

namespace Parser

/-- The name of a parser's kind. -/
def kind : Parser → String
  | .literal .. => "Literal"
  | .sequence .. => "Sequence"
  | .alternation .. => "Alternation"
  | .repetition .. => "Repetition"
  | .endOfInput => "EndOfInput"
  | .map .. => "Map"
  | .forward .. => "Forward"

/-- The objects at the other ends of a parser's edges, in order. -/
def children : Parser → List Object
  | .sequence parsers => parsers
  | .alternation first second => [first, second]
  | .repetition parser | .map parser _ => [parser]
  | .forward _ (some target) => [.node target]
  | .literal .. | .endOfInput | .forward _ none => []

/-- Redirects the edge with the given index. The target of a forward reference stays. -/
def setChild (i : Nat) (o : Object) : Parser → Parser
  | .sequence parsers => .sequence (parsers.set i o)
  | .alternation first second =>
    match i with
    | 0 => .alternation o second
    | 1 => .alternation first o
    | _ => .alternation first second
  | .repetition parser => .repetition (if i = 0 then o else parser)
  | .map parser transform => .map (if i = 0 then o else parser) transform
  | p => p

def isForward : Parser → Bool
  | .forward .. => true
  | _ => false

/-- The range of elements from one bound to the other. -/
def range (lower upper : Value) : Except Fault Parser := do
  if ← upper.precedes true lower then throw (.defect (.emptyRange lower upper))
  return .literal lower upper

/-- The range of one element alone, which does not come before itself whatever it holds. -/
def only (element : Value) : Except Fault Parser :=
  if element.hasOrder then .ok (.literal element element) else .error .wrongType

/-- Parsers one after the other, at least one. They are given as a list, as declared; other
containers, which cannot be written to by index, are left out. -/
def inOrder (parsers : List Object) : Except Fault Parser :=
  if parsers.isEmpty then .error (.defect .emptySequence) else .ok (.sequence parsers)

end Parser

/-- A parser in a graph. -/
structure Node where
  parser : Parser
  /-- Set when compaction first visits the node. -/
  compacted : Bool := false
deriving Inhabited

/-- The nodes that were made so far, in the order of their making. -/
structure Graph where
  nodes : Array Node := #[]
deriving Inhabited

namespace Graph

def size (g : Graph) : Nat :=
  g.nodes.size

/-- The node that an object is, if it is one. -/
def node? (g : Graph) : Object → Option Node
  | .node id => g.nodes[id]?
  | _ => none

def parser? (g : Graph) (o : Object) : Option Parser :=
  (g.node? o).map (·.parser)

/-- The number that the next node gets. -/
def nextId (g : Graph) : NodeId :=
  g.nodes.size

/-- Makes a node. -/
def push (g : Graph) (p : Parser) : Graph :=
  ⟨g.nodes.push { parser := p }⟩

def update (g : Graph) (id : NodeId) (f : Node → Node) : Graph :=
  ⟨g.nodes.modify id f⟩

/-- Marks a node as compacted. -/
def mark (g : Graph) (id : NodeId) : Graph :=
  g.update id fun node => { node with compacted := true }

/-- Redirects an edge of a node. -/
def setChild (g : Graph) (id : NodeId) (i : Nat) (o : Object) : Graph :=
  g.update id fun node => { node with parser := node.parser.setChild i o }

/-- Lets a forward reference refer to a node. -/
def setTarget (g : Graph) (id target : NodeId) : Graph :=
  g.update id fun node => match node.parser with
    | .forward name _ => { node with parser := .forward name (some target) }
    | _ => node

end Graph

end ParserGraph
