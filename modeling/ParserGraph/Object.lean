import ParserGraph.Value.Basic

/-!
# Objects

What an edge of a graph may hold and what a name of a workspace may stand for. Only a node is a
parser; that an edge holds something else shows when the edge is followed.
-/

namespace ParserGraph

/-- The number of a node in its graph. -/
abbrev NodeId := Nat

/-- A node, a cursor or a grammar by its number, or a plain value. -/
inductive Object
  | node (id : NodeId)
  | cursor (index : Nat)
  | grammar (index : Nat)
  | value (v : Value)
deriving Inhabited

namespace Object

def node? : Object → Option NodeId
  | .node id => some id
  | _ => none

/-- Whether an object can be remembered in a set. -/
def isHashable : Object → Bool
  | .value v => v.isHashable
  | _ => true

end Object

end ParserGraph
