import ParserGraph.Graph.Basic

/-!
# Walking a graph

`Graph.walk` visits everything that can be reached from an object, each once, the child that was
found last first. A walk ends early at an object that is no node, or at a child that cannot be
remembered.
-/

namespace ParserGraph

/-- Whether two objects are one: nodes by their number, values by their equality. -/
def Object.same : Object → Object → Bool
  | .node a, .node b => a == b
  | .cursor a, .cursor b => a == b
  | .grammar a, .grammar b => a == b
  | .value a, .value b => a.equal b
  | _, _ => false

/-- What was visited, in order, and what ended the visit early. -/
structure Walk where
  visited : List Object
  fault : Option Fault := none

/-- The visited objects of a walk that was not ended early. -/
def Walk.complete (w : Walk) : Except Fault (List Object) :=
  match w.fault with
  | none => .ok w.visited
  | some f => .error f

namespace Graph

/-- The objects that wait to be visited, the next one first, and all that were ever put there. -/
structure Pending where
  stack : List Object
  seen : List Object

/-- Puts the objects that were not seen yet onto the stack, each above the one before. -/
def Pending.pushNew : Pending → List Object → Except Fault Pending
  | p, [] => .ok p
  | p, o :: rest =>
    if !o.isHashable then .error .wrongType
    else if p.seen.any o.same then p.pushNew rest
    else Pending.pushNew ⟨o :: p.stack, o :: p.seen⟩ rest

/-- Visits what is pending. Every visit but the last is of a node of its own, so `g.size + 1`
visits are enough. -/
def walkFrom (g : Graph) : Nat → Pending → Walk
  | _, ⟨[], _⟩ => { visited := [] }
  | 0, ⟨_ :: _, _⟩ => { visited := [], fault := some .tooDeep }
  | visits + 1, ⟨o :: stack, seen⟩ =>
    match g.node? o with
    | none => { visited := [o], fault := some (.defect (.notAParser o)) }
    | some node =>
      match Pending.pushNew ⟨stack, seen⟩ node.parser.children with
      | .error f => { visited := [o], fault := some f }
      | .ok pending =>
        let rest := g.walkFrom visits pending
        { rest with visited := o :: rest.visited }

/-- Visits everything that can be reached from an object. -/
def walk (g : Graph) (root : Object) : Walk :=
  if root.isHashable then g.walkFrom (g.size + 1) ⟨[root], [root]⟩
  else { visited := [], fault := some .wrongType }

/-- Everything that can be reached from an object, in the order of the visit. -/
def reachable (g : Graph) (root : Object) : Except Fault (List Object) :=
  (g.walk root).complete

/-- Whether an object is a forward reference. -/
def isForward (g : Graph) (o : Object) : Bool :=
  (g.parser? o).any (·.isForward)

/-- The number of forward references that can be reached. -/
def forwardCount (g : Graph) (root : Object) : Except Fault Nat :=
  (g.reachable root).map fun visited => visited.countP g.isForward

/-- The children of a node. -/
def children (g : Graph) (o : Object) : Except Fault (List Object) :=
  ((Fault.defect (.notAParser o)).orElse (g.parser? o)).map (·.children)

end Graph

end ParserGraph
