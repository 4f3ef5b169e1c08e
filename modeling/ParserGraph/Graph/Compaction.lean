import ParserGraph.Graph.Walk

/-!
# Compaction

Compaction redirects every edge at a forward reference to the first node behind the reference that
is none. A node is marked before its edges are followed, so a cycle comes back to a marked node
and ends there.

A compaction that fails leaves the marks and the redirected edges behind that it has made so far;
`Graph.checkResolvable` finds beforehand whether it would fail.
-/

namespace ParserGraph.Graph

/-- Follows forward references, `seen` being those passed so far, down to the first node that is
none. Each step passes another reference, so `g.size + 1` steps are enough. -/
def resolveFrom (g : Graph) : Nat → List NodeId → NodeId → Except Fault NodeId
  | 0, _, _ => .error .tooDeep
  | steps + 1, seen, id =>
    match g.parser? (.node id) with
    | some (.forward name target) =>
      match target with
      | none => .error (.defect (.neverBound name))
      | some next =>
        if seen.contains id then .error (.defect (.boundToItself name))
        else g.resolveFrom steps (id :: seen) next
    | _ => .ok id

/-- The first node behind a chain of forward references. -/
def resolve (g : Graph) (id : NodeId) : Except Fault NodeId :=
  g.resolveFrom (g.size + 1) [] id

/-- Compacts the children of a node from the index `i` on and redirects its edges. -/
def compactChildren (compact : Object → Graph → Except Fault NodeId × Graph) (id : NodeId) :
    Nat → List Object → Graph → Except Fault Unit × Graph
  | _, [], g => (.ok (), g)
  | i, child :: rest, g =>
    match compact child g with
    | (.ok target, g') => compactChildren compact id (i + 1) rest (g'.setChild id i (.node target))
    | (.error f, g') => (.error f, g')

/-- Compacts the node behind an object. Each nested call is made below a node that was marked just
before, so a depth of `g.size + 1` is enough. -/
def compactFrom : Nat → Object → Graph → Except Fault NodeId × Graph
  | 0, _, g => (.error .tooDeep, g)
  | depth + 1, .node start, g =>
    match g.resolve start with
    | .error f => (.error f, g)
    | .ok id =>
      match g.node? (.node id) with
      | none => (.error (.defect (.notAParser (.node id))), g)
      | some node =>
        if node.compacted then (.ok id, g)
        else
          match compactChildren (compactFrom depth) id 0 node.parser.children (g.mark id) with
          | (.ok (), g') => (.ok id, g')
          | (.error f, g') => (.error f, g')
  | _ + 1, o, g => (.error (.defect (.notAParser o)), g)

/-- Redirects every edge at a forward reference that can be reached from an object, and gives the
node that the object stands for. -/
def compact (g : Graph) (o : Object) : Except Fault NodeId × Graph :=
  compactFrom (g.size + 1) o g

/-! ## Checking beforehand -/

/-- Follows bound forward references from the target of one; whether they come back to one that
was passed. -/
def loopsFrom (g : Graph) : Nat → List NodeId → NodeId → Bool
  | 0, _, _ => false
  | steps + 1, seen, id =>
    match g.parser? (.node id) with
    | some (.forward _ (some next)) => seen.contains id || g.loopsFrom steps (id :: seen) next
    | _ => false

/-- What keeps a forward reference from being resolved. -/
inductive Obstacle
  | unbound (name : Value)
  | loop (name : Value)

/-- The obstacle at an object. -/
def obstacle? (g : Graph) (o : Object) : Option Obstacle :=
  match o, g.parser? o with
  | .node _, some (.forward name none) => some (.unbound name)
  | .node id, some (.forward name (some target)) =>
    if g.loopsFrom (g.size + 1) [id] target then some (.loop name) else none
  | _, _ => none

/-- The names of unbound references in ascending order; a name that is no text cannot be put into
the order of the others. -/
def sortedNames (names : List Value) : Except Fault (List String) := do
  let texts ← names.mapM fun
    | .text s => .ok s
    | _ => .error Fault.wrongType
  return texts.mergeSort fun a b => decide (a ≤ b)

/-- Finds out whether every forward reference that can be reached can be resolved. A loop counts
before anything that ends the walk after it, and that before references without a target, which
are all named. -/
def checkResolvable (g : Graph) (entry : Object) : Except Fault Unit := do
  let walk := g.walk entry
  let obstacles := walk.visited.filterMap g.obstacle?
  match obstacles.findSome? fun | .loop name => some name | .unbound _ => none with
  | some name => throw (.defect (.boundToItself name))
  | none =>
    let _ ← walk.complete
    let names := obstacles.filterMap fun | .unbound name => some name | .loop _ => none
    if !names.isEmpty then throw (.defect (.neverBoundReachable (← sortedNames names)))

end ParserGraph.Graph
