import ParserGraph.Grammar.Basic
import ParserGraph.Graph.Dump

/-!
# Commands of a workspace

A workspace is worked on by steps: each carries out one command on objects that earlier steps have
stored under names. A step is answered by a reply, or by the problem that kept it from being
carried out.
-/

namespace ParserGraph.Workspace

/-- What a command works on: what a name stands for, or a plain value. -/
inductive Operand
  | name (name : String)
  | value (v : Value)

/-- Where a parser reads from: a cursor of the workspace, or a new one over a content. -/
inductive Input
  | cursor (cursor : Operand)
  | content (content : Value)

/-- A command. -/
inductive Command
  | char (c : Value)
  | charRange (lower upper : Value)
  | endOfInput
  | forward (name : Value)
  /-- The parsers are given as a list, in no other container. -/
  | sequence (parsers : List Operand)
  | alternation (first second : Operand)
  | repetition (parser : Operand)
  | mapNode (parser : Operand) (transform : Transform)
  | andThen (self that : Operand)
  | orElse (self that : Operand)
  /-- The operator between two objects: like `orElse` for a parser on its left, the union of two
  values. -/
  | choice (self that : Operand)
  | star (self : Operand)
  | plus (self : Operand)
  | map (self : Operand) (transform : Transform)
  | bind (self parser : Operand)
  | isBound (self : Operand)
  | compacted (self : Operand)
  | target (self : Operand)
  | same (a b : Operand)
  | display (self : Operand)
  /-- Whether there is only one failure marker. -/
  | singleton
  | children (parser : Operand)
  | reachable (parser : Operand)
  | forwardCount (parser : Operand)
  | dump (parser : Operand)
  | compact (parser : Operand)
  | cursor (content : Value)
  | read (cursor : Operand)
  | atEnd (cursor : Operand)
  | save (cursor : Operand)
  | remaining (cursor : Operand)
  | position (cursor : Operand)
  | restore (cursor : Operand) (mark : Int)
  | parse (parser : Operand) (input : Input)
  | grammar (kind : GrammarKind)
  | declare (grammar : Operand) (name : Value)
  | bindProduction (grammar production parser : Operand)
  | unbound (grammar : Operand)
  | compile (grammar entry : Operand)
  | parseWith (grammar : Operand) (content : Value)
  | root (grammar : Operand)
  | productions (grammar : Operand)
  | production (grammar : Operand) (name : Value)

/-- A command, and the name to store its object under. -/
structure Step where
  command : Command
  storeAs : Option String := none

/-- Why a step was not carried out. -/
inductive Problem
  | missingName (name : String)
  /-- A fault, with its message if it is a defect. -/
  | fault (fault : Fault) (message : Option String)

/-- How a reply refers to an object: a node by its kind and the names that stand for it. -/
inductive Reference
  | node (kind : String) (names : List String)
  | value (v : Value)

/-- How a parser ran. -/
structure Report where
  outcome : Except Problem Value
  position : Int
  /-- The notes of transforms, in the order of their application. -/
  notes : List Value

/-- The answer to a step. -/
inductive Reply
  | done
  | truth (b : Bool)
  | number (n : Int)
  | text (s : String)
  | value (v : Value)
  | reference (r : Reference)
  | references (rs : List Reference)
  | compiled (root : Reference) (log : List Log.Record)
  | productions (entries : List (Value × Reference))
  | dump (d : Dump)
  | report (r : Report)

end ParserGraph.Workspace
