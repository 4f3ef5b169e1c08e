import ParserGraph.Value.Operations

/-!
# Transforms

The functions that a map applies to the results of its child. A transform is a pure function on
values together with the two texts that stand for it: its label in a dump and its display in the
text of a node. A transform that leaves a note does so each time it is applied.

A transform may complain of a grammar too, for instance of one that it uses itself. What it
complains of stays its own (`Defect.ofTransform`) and is never taken for what an evaluation finds
wrong with the graph that it runs on.
-/

namespace ParserGraph

/-- A function on results. -/
structure Transform where
  label : String
  /-- Absent if the text cannot be written. -/
  display : Option String
  compute : Value → Except Fault Value
  /-- What an application adds to the trace of an evaluation. -/
  note : Option Value := none

namespace Transform

/-- What a transform makes of a value. -/
def apply (t : Transform) (v : Value) : Except Fault Value :=
  (t.compute v).mapError .ofTransform

theorem apply_of_compute {t : Transform} {v result : Value} (h : t.compute v = .ok result) :
    t.apply v = .ok result := by
  rw [apply, h]
  rfl

/-- A function that is shown by its name. -/
def named (name : String) (compute : Value → Except Fault Value) : Transform :=
  ⟨name, s!"<function {name}>", compute, none⟩

/-- Reads an integer. -/
def integer : Transform := ⟨"int", "<class 'int'>", Value.toInteger, none⟩

/-- The text of a value. -/
def words : Transform := ⟨"str", "<class 'str'>", fun v => v.words.map .text, none⟩

def length : Transform := ⟨"len", "<built-in function len>", Value.length, none⟩

def join : Transform := ⟨"str.join", "<built-in method join>", Value.join, none⟩

def uppercase : Transform :=
  ⟨"str.upper", "<method 'upper' of 'str' objects>", Value.uppercase, none⟩

/-- Forgets the result. -/
def null : Transform := named "null" fun _ => .ok .null

/-- Turns every match into a mismatch. -/
def fail : Transform := named "fail" fun _ => .ok .failure

/-- Puts the result into a list of its own. -/
def wrap : Transform := named "wrap" fun v => .ok (.list [v])

/-- Fails as a function does that is given a value of the wrong type. -/
def typeError : Transform := named "type_error" fun _ => .error .wrongType

/-- Fails with a complaint about the grammar. -/
def parserError : Transform := named "parser_error" fun _ => .error (.defect (.refused "transform"))

/-- Always the same result. -/
def const (v : Value) : Transform :=
  ⟨s!"Const({v.spelling})", v.display.toOption.map fun text => s!"Const({text})", fun _ => .ok v,
    none⟩

/-- Keeps the result and leaves a note. -/
def trace (note : Value) : Transform :=
  ⟨s!"Trace({note.spelling})", note.display.toOption.map fun text => s!"Trace({text})",
    fun v => .ok v, some note⟩

/-- A plain value in the place of a function: it cannot be applied. -/
def notCallable (v : Value) : Transform :=
  ⟨v.spelling, v.display.toOption, fun _ => .error .wrongType, none⟩

/-- The matches of a parser that is repeated at least once, in one list. -/
def oneOrMore : Transform :=
  named "CombinatorialParser.plus.<locals>.<lambda>" Value.consFirst

end Transform

end ParserGraph
