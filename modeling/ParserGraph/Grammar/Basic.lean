import ParserGraph.Graph.Construction
import ParserGraph.Graph.Compaction
import ParserGraph.Graph.Evaluation
import ParserGraph.Graph.Dump
import ParserGraph.Log

/-!
# Grammars

A grammar is built in two phases. First its productions are declared: each is a forward reference,
so that productions can refer to each other before they are defined. Then each is bound to an
expression of the others. Compilation finally compacts the graph from one production on, and what
it gives is the root that inputs are parsed with.
-/

namespace ParserGraph

/-- The grammars that the library knows. -/
inductive GrammarKind
  /-- A grammar without productions of its own. -/
  | bare
  /-- Sums and products of digits. -/
  | arithmetic
  /-- A row of digits. -/
  | digits
deriving DecidableEq

namespace GrammarKind

def name : GrammarKind → String
  | .bare => "Grammar"
  | .arithmetic => "ExpressionGrammar"
  | .digits => "DigitsGrammar"

/-- The text of a grammar of the kind. -/
def display : GrammarKind → String
  | .bare => "<combinators.Grammars.Grammar.Grammar object>"
  | .arithmetic => "<combinators.Grammars.Expression.ExpressionGrammar object>"
  | .digits => "<combinators.Grammars.Digits.DigitsGrammar object>"

end GrammarKind

/-- A grammar over the nodes of a graph. -/
structure Grammar where
  kind : GrammarKind
  /-- The declared productions, in the order of their declaration. -/
  productions : List (Value × NodeId) := []
  /-- What the last compilation gave. -/
  root : Option NodeId := none

namespace Grammar

/-- The forward reference that was declared under a name. -/
def find? (gr : Grammar) (name : Value) : Option NodeId :=
  (gr.productions.find? fun (other, _) => other.equal name).map (·.2)

/-- Declares a production. -/
def declare (name : Value) : StateT (Grammar × Graph) (Except Fault) NodeId := fun (gr, g) => do
  if !name.isHashable then throw .wrongType
  if (gr.find? name).isSome then throw (.defect (.alreadyDeclared name))
  return (g.nextId,
    { gr with productions := gr.productions ++ [(name, g.nextId)] }, g.push (.forward name none))

/-- The production that is meant by a name, or else the object itself. -/
def production (gr : Grammar) : Object → Except Fault Object
  | .value (.text s) => ((Fault.defect (.notDeclared (.text s))).orElse (gr.find? (.text s))).map .node
  | o => .ok o

/-- Binds a production, by name or by reference, and gives the reference. -/
def bind (gr : Grammar) (production parser : Object) : Graph.Build Object := fun g => do
  let o ← gr.production production
  let ((), g') ← Graph.bind o parser g
  return (o, g')

/-- Whether a node is a forward reference without a target. -/
def isUnbound (g : Graph) (id : NodeId) : Bool :=
  match g.parser? (.node id) with
  | some (.forward _ target) => target.isNone
  | _ => false

/-- The names of the productions that are not bound yet. -/
def unbound (gr : Grammar) (g : Graph) : List Value :=
  (gr.productions.filter fun (_, id) => isUnbound g id).map (·.1)

/-- The node to compile from; everything behind it can be resolved. -/
def entryPoint (gr : Grammar) (entry : Object) (g : Graph) : Except Fault Object := do
  let o ← gr.production entry
  if (g.node? o).isNone then throw (.defect (.notAParser o))
  g.checkResolvable o
  return o

/-- What is logged of a compilation. -/
def compilationRecord (gr : Grammar) (entry : Option Parser) (reached : Nat) : Log.Record :=
  let name := match entry with
    | some (.forward (.text name) _) => name
    | some (.forward name _) => name.spelling
    | _ => "<root>"
  { level := Log.debug
    logger := "combinators.grammar"
    message := s!"Compiled {gr.kind.name} from '{name}': {toString gr.productions.length} " ++
      s!"productions, {toString reached} nodes reachable" }

/-- Compacts the graph from an entry on and takes the result for the root. Compaction starts only
if it can succeed, as the marks of one that failed would keep a later one from its work. -/
def compile (gr : Grammar) (entry : Object) (g : Graph) :
    Except Fault (NodeId × Log.Record) × Grammar × Graph :=
  match gr.entryPoint entry g with
  | .error f => (.error f, gr, g)
  | .ok start =>
    match g.compact start with
    | (.error f, g') => (.error f, gr, g')
    | (.ok root, g') =>
      let gr' := { gr with root := some root }
      match g'.reachable (.node root) with
      | .error f => (.error f, gr', g')
      | .ok visited =>
        (.ok (root, gr.compilationRecord (g.parser? start) visited.length), gr', g')

/-- The root that inputs are parsed with. -/
def compiledRoot (gr : Grammar) : Except Fault NodeId :=
  (Fault.defect (.notCompiled gr.kind.name)).orElse gr.root

/-- Parses a content from its start; a mismatch gives the failure marker. -/
def parse (gr : Grammar) (g : Graph) (content : Content) : Except Fault Value := do
  let root ← gr.compiledRoot
  (g.parse (.node root) content 0).1.toExcept

end Grammar

/-- A grammar with its graph, and what was logged when it was made. -/
structure Language where
  grammar : Grammar
  graph : Graph
  log : List Log.Record := []

namespace Language

/-- Parses a content; a mismatch gives the failure marker. -/
def parse (l : Language) (content : Content) : Except Fault Value :=
  l.grammar.parse l.graph content

/-- Compacts one production and parses a content with it alone: the result, where the parse
stopped, and what it left. A fault comes with the graph that it arose in. -/
def parseProduction (l : Language) (name content : Value) :
    Except (Fault × Graph) (Value × Int × Value) :=
  match l.grammar.find? name with
  | none => .error (if name.isHashable then .noSuchKey else .wrongType, l.graph)
  | some id =>
    match l.graph.compact (.node id) with
    | (.error f, g) => .error (f, g)
    | (.ok root, g) =>
      let cursor : Cursor := { source := content }
      let (outcome, s) := g.parse (.node root) cursor.content cursor.position
      match outcome.toExcept, { cursor with position := s.position : Cursor }.remaining with
      | .ok v, .ok rest => .ok (v, s.position, rest)
      | .error f, _ | _, .error f => .error (f, g)

/-- The dump of the compiled graph. -/
def dump (l : Language) : Except Fault Dump := do
  l.graph.dump (.node (← l.grammar.compiledRoot))

end Language

namespace Grammar

/-- Steps of the definition of a grammar. -/
abbrev Define (α : Type) := StateT (Grammar × Graph) (Except Fault) α

/-- A change of the graph as a step of a definition. -/
def Define.build {α : Type} (b : Graph.Build α) : Define α := fun (gr, g) => do
  let (a, g') ← b g
  return (a, gr, g')

/-- Declares a production under a text. -/
def Define.production (name : String) : Define Object :=
  .node <$> declare (.text name)

/-- Binds a production to the node that is built. -/
def Define.rule (production : Object) (b : Graph.Build NodeId) : Define Unit :=
  Define.build do Graph.bind production (.node (← b))

/-- Makes a grammar in a graph: carries out the definition and compiles from the production that it
names. -/
def make (kind : GrammarKind) (define : Define Object) (g : Graph) : Except Fault Language := do
  let (entry, gr, g) ← define ({ kind }, g)
  match gr.compile entry g with
  | (.ok (_, record), gr, g) => return { grammar := gr, graph := g, log := [record] }
  | (.error f, _, _) => throw f

end Grammar

end ParserGraph
