import ParserGraph.Graph.Display
import ParserGraph.Content

/-!
# Evaluation

A parser either matches, and gives a result, or it does not match; a fault ends the whole
evaluation. `Graph.evaluate` runs a node of a graph over a content. Each kind of parser says how
it runs its children (`Parser.attempt`); a limit bounds the depth of runs inside runs, and
`Graph.depthLimit` is large enough for every evaluation that does not enter a node again at the
position where it is still running. A run that uses up the limit is given up: this is an end of its
own, which no parser and no transform brings about.

Only a sequence, an alternation before its second parser, and a repetition after its last round go
back to where they started. A literal that does not match has still moved past its element.
-/

namespace ParserGraph

/-- How the run of a parser ends. -/
inductive Outcome
  | matched (result : Value)
  | mismatch
  | raised (fault : Fault)
  /-- The depth limit is used up. -/
  | givenUp
deriving Inhabited

/-- A result that is the failure marker is no match. -/
def Outcome.ofValue (v : Value) : Outcome :=
  if v.isFailure then .mismatch else .matched v

def Outcome.ofExcept : Except Fault Value → Outcome
  | .ok v => .ofValue v
  | .error f => .raised f

/-- The result of a run as a value: a mismatch gives the failure marker. -/
def Outcome.toExcept : Outcome → Except Fault Value
  | .matched v => .ok v
  | .mismatch => .ok .failure
  | .raised f => .error f
  | .givenUp => .error .tooDeep

/-- The state of an evaluation: the reading position, and the notes of transforms, the latest
first. -/
structure Progress where
  position : Int
  notes : List Value := []
deriving Inhabited

namespace Progress

def moveTo (s : Progress) (position : Int) : Progress :=
  { s with position }

def addNote (s : Progress) : Option Value → Progress
  | some note => { s with notes := note :: s.notes }
  | none => s

end Progress

/-- The run of a parser from a state. -/
abbrev Attempt := Progress → Outcome × Progress

namespace Attempt

/-- Reads one element and tests whether it lies within a range. -/
def literal (content : Content) (lower upper : Value) : Attempt := fun s =>
  match content.read s.position with
  | .error f => (.raised f, s)
  | .ok none => (.mismatch, s)
  | .ok (some element) =>
    let past := s.moveTo (s.position + 1)
    if element.isFailure then (.mismatch, past)
    else match Value.between lower upper element with
      | .ok true => (.matched element, past)
      | .ok false => (.mismatch, past)
      | .error f => (.raised f, past)

/-- Runs objects one after the other; `results` are those of the objects before, latest first. -/
def sequence (run : Object → Attempt) (start : Int) : List Object → List Value → Attempt
  | [], results, s => (.matched (.list results.reverse), s)
  | o :: rest, results, s =>
    match run o s with
    | (.matched v, s') => sequence run start rest (v :: results) s'
    | (.mismatch, s') => (.mismatch, s'.moveTo start)
    | other => other

/-- Runs the first object, and the second from the same position if the first does not match. -/
def alternation (run : Object → Attempt) (first second : Object) : Attempt := fun s =>
  match run first s with
  | (.mismatch, s') => run second (s'.moveTo s.position)
  | other => other

/-- Runs an object until it does not match. A round that does not move on would go on forever, so
it is a defect; `raise` gives what a defect is raised as. -/
def repetition (raise : Defect → Fault) (run : Object → Attempt) (o : Object) :
    Nat → List Value → Attempt
  | 0, _, s => (.givenUp, s)
  | rounds + 1, results, s =>
    match run o s with
    | (.matched v, s') =>
      if s'.position = s.position then (.raised (raise (.zeroWidthRepetition o)), s')
      else repetition raise run o rounds (v :: results) s'
    | (.mismatch, s') => (.matched (.list results.reverse), s'.moveTo s.position)
    | other => other

/-- Matches at the end and reads nothing. -/
def endOfInput (content : Content) : Attempt := fun s =>
  match content.atEnd s.position with
  | .ok true => (.matched .null, s)
  | .ok false => (.mismatch, s)
  | .error f => (.raised f, s)

/-- Runs an object and transforms its result. -/
def map (run : Object → Attempt) (o : Object) (transform : Transform) : Attempt := fun s =>
  match run o s with
  | (.matched v, s') => (.ofExcept (transform.apply v), s'.addNote transform.note)
  | other => other

end Attempt

/-- The run of a parser, given what defects are raised as and how its children run. -/
def Parser.attempt (raise : Defect → Fault) (run : Object → Attempt) (content : Content) :
    Parser → Attempt
  | .literal lower upper => .literal content lower upper
  | .sequence parsers => fun s => Attempt.sequence run s.position parsers [] s
  | .alternation first second => .alternation run first second
  | .repetition parser => fun s =>
    Attempt.repetition raise run parser (content.remaining s.position + 1) [] s
  | .endOfInput => .endOfInput content
  | .map parser transform => .map run parser transform
  | .forward name _ => fun s => (.raised (raise (.parsedForward name)), s)

namespace Graph

/-- Runs an object over a content, with at most `depth` runs inside each other, given what defects
are raised as. -/
def evaluateWith (g : Graph) (raise : Defect → Fault) (content : Content) : Nat → Object → Attempt
  | 0, _, s => (.givenUp, s)
  | depth + 1, o, s =>
    match g.node? o with
    | some node => node.parser.attempt raise (g.evaluateWith raise content depth) content s
    | none => (.raised (raise (.notAParser o)), s)

/-- Runs an object over a content; the message of a defect is written when it is raised. -/
def evaluate (g : Graph) (content : Content) : Nat → Object → Attempt :=
  g.evaluateWith g.raise content

/-- A depth that is reached only if some node is entered again where it is still running. -/
def depthLimit (g : Graph) (content : Content) (position : Int) : Nat :=
  g.size * (content.remaining position + 1) + 1

/-- Runs an object over a content from a position. -/
def parse (g : Graph) (o : Object) (content : Content) (position : Int) : Outcome × Progress :=
  g.evaluate content (g.depthLimit content position) o { position }

end Graph

end ParserGraph
