import ParserGraph.Workspace.Command
import ParserGraph.Grammar.Kinds
import ParserGraph.Graph.Display
import ParserGraph.Fault.Message

/-!
# The workspace

One graph with the grammars and cursors over it, and the names that stand for its objects.
`Workspace.step` carries out one step. A step that fails changes nothing, except where an object
changes before its operation fails: a compaction leaves its marks, and a parser leaves its cursor
where it stopped.
-/

namespace ParserGraph

/-- The objects of a workspace and their names. -/
structure Workspace where
  graph : Graph := {}
  grammars : Array Grammar := #[]
  cursors : Array Cursor := #[]
  names : List (String × Object) := []

namespace Workspace

/-! ## Texts of objects -/

/-- The text of an object that is no node. -/
def displayOther (w : Workspace) : Object → Except Fault String
  | .node _ => .error .noSuchOperation
  | .cursor i => do (← Fault.noSuchOperation.orElse w.cursors[i]?).display
  | .grammar i => (Fault.noSuchOperation.orElse w.grammars[i]?).map (·.kind.display)
  | .value v => v.display

/-- The text of an object. -/
def display (w : Workspace) (o : Object) : Except Fault String :=
  w.graph.display w.displayOther o

/-- The problem that a fault is. A defect whose message cannot be written gives way to the fault
that keeps it from being written. -/
def explain (w : Workspace) : Fault → Problem
  | .defect d =>
    match d.message w.display with
    | .ok message => .fault (.defect d) (some message)
    | .error f => .fault f none
  | f => .fault f none

/-- How a reply refers to an object. -/
def refer (w : Workspace) (o : Object) : Reference :=
  match w.graph.parser? o, o with
  | some p, _ =>
    let names := (w.names.filter fun (_, other) => other.same o).map (·.1)
    .node p.kind (names.mergeSort fun a b => decide (a ≤ b))
  | none, .value v => .value v
  | none, o => .value (match w.display o with
    | .ok text => .text text
    | .error _ => .null)

/-- The problem that a fault of a compaction is. An object without a text cannot be told from the
objects that there is a way to compact. -/
def explainCompaction (w : Workspace) (f : Fault) : Problem :=
  match w.explain f with
  | .fault .wrongType _ => .fault .notDispatched none
  | problem => problem

/-! ## Carrying out commands -/

/-- Work on a workspace; what is changed before a problem stays changed. -/
abbrev Work (α : Type) := ExceptT Problem (StateM Workspace) α

/-- A result that may be a fault. -/
def Work.ofExcept {α : Type} (result : Except Fault α) : Work α := do
  match result with
  | .ok a => return a
  | .error f => throw ((← get).explain f)

def Work.fault {α : Type} (f : Fault) : Work α :=
  Work.ofExcept (.error f)

/-- A change of the graph. -/
def Work.build {α : Type} (b : Graph.Build α) : Work α := do
  let (a, graph) ← Work.ofExcept (b (← get).graph)
  modify ({ · with graph })
  return a

/-- The object that an operand means. -/
def lookup : Operand → Work Object
  | .value v => return .value v
  | .name name => do
    match (← get).names.lookup name with
    | some o => return o
    | none => throw (.missingName name)

/-- What a command gives: an object, which can be stored, or only a reply. -/
inductive Answer
  | object (o : Object)
  /-- An object that is stored without being shown. -/
  | hidden (o : Object)
  | compiled (root : Object) (record : Log.Record)
  | objects (os : List Object)
  | entries (es : List (Value × Object))
  | reply (r : Reply)

/-- Makes a node of a parser, if it is one. -/
def addNode (p : Except Fault Parser) : Work Answer := do
  return .object (.node (← Work.build (Graph.add (← Work.ofExcept p))))

/-- Builds around an object. -/
def built (b : Graph.Build NodeId) : Work Answer := do
  return .object (.node (← Work.build b))

/-- The cursor that an operand means. -/
def lookupCursor (operand : Operand) : Work (Nat × Cursor) := do
  match ← lookup operand with
  | .cursor i =>
    match (← get).cursors[i]? with
    | some c => return (i, c)
    | none => Work.fault .noSuchOperation
  | _ => Work.fault .noSuchOperation

def setCursor (i : Nat) (c : Cursor) : Work Unit :=
  modify fun w => { w with cursors := w.cursors.setIfInBounds i c }

/-- The grammar that an object is. -/
def grammarOf : Object → Work (Nat × Grammar)
  | .grammar i => do
    match (← get).grammars[i]? with
    | some gr => return (i, gr)
    | none => Work.fault .noSuchOperation
  | _ => Work.fault .noSuchOperation

def setGrammar (i : Nat) (gr : Grammar) : Work Unit :=
  modify fun w => { w with grammars := w.grammars.setIfInBounds i gr }

/-- The result of a run as a value. -/
def report (w : Workspace) (outcome : Outcome) (s : Progress) : Report where
  outcome := outcome.toExcept.mapError w.explain
  position := s.position
  notes := s.notes.reverse

/-- Runs a parser on an input. A cursor of the workspace stays where the run stopped, also after a
fault. -/
def parse (parser : Object) : Input → Work Report
  | .content v => do
    let w ← get
    let (outcome, s) := w.graph.parse parser (.ofValue v) 0
    return w.report outcome s
  | .cursor operand => do
    let (i, c) ← lookupCursor operand
    let (outcome, s) := (← get).graph.parse parser c.content c.position
    setCursor i { c with position := s.position }
    return (← get).report outcome s

/-- Whether two values are the very same. Small values exist only once: the null and truth values
and the failure marker, integers from -5 to 256, and texts and bytes of at most one element below
256. -/
def isSameValue : Value → Value → Bool
  | .null, .null | .failure, .failure => true
  | .bool a, .bool b => a == b
  | .int a, .int b => a == b && -5 ≤ a && a ≤ 256
  | .text a, .text b => a == b && a.length ≤ 1 && a.toList.all (·.toNat < 0x100)
  | .bytes a, .bytes b => a == b && a.length ≤ 1
  | _, _ => false

/-- Whether two objects are the very same. -/
def isSame : Object → Object → Bool
  | .value a, .value b => isSameValue a b
  | a, b => a.same b

/-- Whether two operands mean the very same object. A name means the same object each time. -/
def Operand.isSame : Operand → Operand → Object → Object → Bool
  | .name a, .name b, x, y => a == b || Workspace.isSame x y
  | _, _, x, y => Workspace.isSame x y

/-- The arithmetic grammar has a production for the plus sign where parsers have the operator. -/
def hasPlusSign (o : Object) : Work Bool := do
  match o with
  | .grammar i => return (← get).grammars[i]?.any (·.kind == .arithmetic)
  | _ => return false

/-- Carries out a command. Its operands are looked up first, from left to right. -/
def perform : Command → Work Answer
  | .char c => addNode (Parser.only c)
  | .charRange lower upper => addNode (Parser.range lower upper)
  | .endOfInput => addNode (.ok .endOfInput)
  | .forward name => addNode (.ok (.forward name none))
  | .sequence parsers => do addNode (Parser.inOrder (← parsers.mapM lookup))
  | .alternation first second => do
    let first ← lookup first
    let second ← lookup second
    addNode (.ok (.alternation first second))
  | .repetition parser => do addNode (.ok (.repetition (← lookup parser)))
  | .mapNode parser transform => do addNode (.ok (.map (← lookup parser) transform))
  | .andThen self that => do
    let self ← lookup self
    let that ← lookup that
    built (Graph.andThen self that)
  | .orElse self that => do
    let self ← lookup self
    let that ← lookup that
    built (Graph.orElse self that)
  | .choice self that => do
    let self ← lookup self
    let that ← lookup that
    match self, that with
    | .node _, _ => built (Graph.orElse self that)
    | .value a, .value b => return .object (.value (← Work.ofExcept (a.union b)))
    | _, _ => Work.fault .wrongType
  | .star self => do built (Graph.star (← lookup self))
  | .plus self => do
    let self ← lookup self
    if ← hasPlusSign self then Work.fault .wrongType
    built (Graph.plus self)
  | .map self transform => do built (Graph.mapTo (← lookup self) transform)
  | .bind self parser => do
    let self ← lookup self
    let parser ← lookup parser
    Work.build (Graph.bind self parser)
    return .reply .done
  | .isBound self => do
    match (← get).graph.parser? (← lookup self) with
    | some (.forward _ target) => return .reply (.truth target.isSome)
    | _ => Work.fault .noSuchOperation
  | .compacted self => do
    match (← get).graph.node? (← lookup self) with
    | some node => return .reply (.truth node.compacted)
    | none => Work.fault .noSuchOperation
  | .target self => do
    match (← get).graph.parser? (← lookup self) with
    | some (.forward _ (some target)) => return .object (.node target)
    | some (.forward _ none) => return .object (.value .null)
    | _ => Work.fault .noSuchOperation
  | .same a b => do
    let x ← lookup a
    let y ← lookup b
    return .reply (.truth (a.isSame b x y))
  | .display self => do
    let o ← lookup self
    return .reply (.text (← Work.ofExcept ((← get).display o)))
  | .singleton => return .reply (.truth (isSame (.value .failure) (.value .failure)))
  | .children parser => do
    let o ← lookup parser
    return .objects (← Work.ofExcept ((← get).graph.children o))
  | .reachable parser => do
    let o ← lookup parser
    return .objects (← Work.ofExcept ((← get).graph.reachable o))
  | .forwardCount parser => do
    let o ← lookup parser
    return .reply (.number (← Work.ofExcept ((← get).graph.forwardCount o)))
  | .dump parser => do
    let o ← lookup parser
    return .reply (.dump (← Work.ofExcept ((← get).graph.dump o)))
  | .compact parser => do
    let o ← lookup parser
    let (result, graph) := (← get).graph.compact o
    modify ({ · with graph })
    match result with
    | .ok id => return .object (.node id)
    | .error f => throw ((← get).explainCompaction f)
  | .cursor content => do
    let w ← get
    set { w with cursors := w.cursors.push { source := content } }
    return .hidden (.cursor w.cursors.size)
  | .read cursor => do
    let (i, c) ← lookupCursor cursor
    let (v, c) ← Work.ofExcept c.read
    setCursor i c
    return .reply (.value v)
  | .atEnd cursor => do
    let (_, c) ← lookupCursor cursor
    return .reply (.truth (← Work.ofExcept c.atEnd))
  | .save cursor | .position cursor => do
    let (_, c) ← lookupCursor cursor
    return .reply (.number c.position)
  | .remaining cursor => do
    let (_, c) ← lookupCursor cursor
    return .reply (.value (← Work.ofExcept c.remaining))
  | .restore cursor mark => do
    let (i, c) ← lookupCursor cursor
    setCursor i { c with position := mark }
    return .reply .done
  | .parse parser input => do
    let o ← lookup parser
    return .reply (.report (← parse o input))
  | .grammar kind => do
    let w ← get
    let language ← Work.ofExcept (kind.make w.graph)
    set { w with graph := language.graph, grammars := w.grammars.push language.grammar }
    return .hidden (.grammar w.grammars.size)
  | .declare grammar name => do
    let (i, gr) ← grammarOf (← lookup grammar)
    let (id, gr, graph) ← Work.ofExcept (Grammar.declare name (gr, (← get).graph))
    modify ({ · with graph })
    setGrammar i gr
    return .object (.node id)
  | .bindProduction grammar production parser => do
    let grammar ← lookup grammar
    let production ← lookup production
    let parser ← lookup parser
    if (← get).graph.isForward grammar then Work.fault .wrongType
    let (_, gr) ← grammarOf grammar
    return .object (← Work.build (gr.bind production parser))
  | .unbound grammar => do
    let (_, gr) ← grammarOf (← lookup grammar)
    return .reply (.value (.list (gr.unbound (← get).graph)))
  | .compile grammar entry => do
    let grammar ← lookup grammar
    let entry ← lookup entry
    let (i, gr) ← grammarOf grammar
    let (result, gr, graph) := gr.compile entry (← get).graph
    modify ({ · with graph })
    setGrammar i gr
    let (root, record) ← Work.ofExcept result
    return .compiled (.node root) record
  | .parseWith grammar content => do
    let (_, gr) ← grammarOf (← lookup grammar)
    return .reply (.value (← Work.ofExcept (gr.parse (← get).graph (.ofValue content))))
  | .root grammar => do
    let (_, gr) ← grammarOf (← lookup grammar)
    return .object (.node (← Work.ofExcept gr.compiledRoot))
  | .productions grammar => do
    let (_, gr) ← grammarOf (← lookup grammar)
    return .entries (gr.productions.map fun (name, id) => (name, .node id))
  | .production grammar name => do
    let (_, gr) ← grammarOf (← lookup grammar)
    if !name.isHashable then Work.fault .wrongType
    return .object (.node (← Work.ofExcept (Fault.noSuchKey.orElse (gr.find? name))))

/-- The object of an answer, for storing. -/
def Answer.object? : Answer → Option Object
  | .object o | .hidden o | .compiled o _ => some o
  | _ => none

/-- The reply that shows an answer. -/
def Answer.toReply (w : Workspace) : Answer → Reply
  | .object o => .reference (w.refer o)
  | .hidden _ => .done
  | .compiled root record => .compiled (w.refer root) [record]
  | .objects os => .references (os.map w.refer)
  | .entries es => .productions (es.map fun (name, o) => (name, w.refer o))
  | .reply r => r

/-- Lets a name stand for an object, whatever it stood for before. -/
def store (w : Workspace) (name : String) (o : Object) : Workspace :=
  { w with names := (name, o) :: w.names.filter (·.1 != name) }

/-- Carries out a step: the command, and then the storing of its object. -/
def step (s : Step) (w : Workspace) : Except Problem Reply × Workspace :=
  match (perform s.command).run w with
  | (.error p, w') => (.error p, w')
  | (.ok answer, w') =>
    let w' := match s.storeAs, answer.object? with
      | some name, some o => w'.store name o
      | _, _ => w'
    (.ok (answer.toReply w'), w')

/-- Carries out steps one after another, whether they fail or not. -/
def run : List Step → Workspace → List (Except Problem Reply) × Workspace
  | [], w => ([], w)
  | s :: steps, w =>
    let (reply, w) := step s w
    let (replies, w) := run steps w
    (reply :: replies, w)

end Workspace

end ParserGraph
