import ParserGraph.Graph.Basic

/-!
# Building a graph

The operators that make new nodes around nodes that exist, and the binding of a forward
reference. An operation that fails leaves the graph as it was.
-/

namespace ParserGraph.Graph

/-- A change of a graph that gives a result. -/
abbrev Build (α : Type) := StateT Graph (Except Fault) α

/-- Makes a node. -/
def add (p : Parser) : Build NodeId := fun g =>
  .ok (g.nextId, g.push p)

/-- The parser that an object must be to take part in an operator. -/
def operand (o : Object) : Build Parser := fun g =>
  (Fault.noSuchOperation.orElse (g.parser? o)).map (·, g)

/-- One object after another: onto a sequence the second is appended, so chains stay flat. -/
def andThen (self that : Object) : Build NodeId := do
  match ← operand self with
  | .sequence parsers => add (.sequence (parsers ++ [that]))
  | _ => add (.sequence [self, that])

/-- The first object, or else the second. -/
def orElse (self that : Object) : Build NodeId := do
  let _ ← operand self
  add (.alternation self that)

/-- Any number of matches. -/
def star (self : Object) : Build NodeId := do
  let _ ← operand self
  add (.repetition self)

/-- At least one match: one and then any number, in one list. -/
def plus (self : Object) : Build NodeId := do
  let more ← star self
  let both ← add (.sequence [self, .node more])
  add (.map (.node both) .oneOrMore)

/-- The results of an object, transformed. -/
def mapTo (self : Object) (transform : Transform) : Build NodeId := do
  let _ ← operand self
  add (.map self transform)

/-- Lets a forward reference stand for a node, once and for all. A grammar would have to be told
which production to bind. -/
def bind (self that : Object) : Build Unit := do
  if let .grammar _ := self then throw .wrongType
  match self, ← operand self with
  | .node id, .forward name target =>
    if target.isSome then throw (.defect (.alreadyBound name))
    match that with
    | .node other => modify (·.setTarget id other)
    | other => throw (.defect (.boundToNonParser name other))
  | _, _ => throw .noSuchOperation

end ParserGraph.Graph
