import ParserGraph.Object

/-!
# Faults

What ends an operation without a result. A `Defect` is a mistake in the way a grammar was put
together; it never counts as input that does not match. The other faults come from values that an
operation cannot take.
-/

namespace ParserGraph

/-- A mistake in a grammar. Names of forward references and productions are values. -/
inductive Defect
  | emptyRange (lower upper : Value)
  | emptySequence
  | alreadyBound (name : Value)
  | boundToNonParser (name : Value) (object : Object)
  | parsedForward (name : Value)
  | notAParser (object : Object)
  | zeroWidthRepetition (parser : Object)
  | neverBound (name : Value)
  | boundToItself (name : Value)
  | neverBoundReachable (names : List String)
  | alreadyDeclared (name : Value)
  | notDeclared (name : Value)
  | notCompiled (className : String)
  /-- A complaint in words of its own. -/
  | refused (text : String)
  /-- What a transform complains of. -/
  | ofTransform (d : Defect)
deriving Inhabited

/-- Why an operation has no result. -/
inductive Fault
  | defect (d : Defect)
  /-- The value is of a kind that the operation does not take. -/
  | wrongType
  /-- The value is of a right kind but not one that the operation takes. -/
  | wrongValue
  | noSuchIndex
  | noSuchKey
  /-- The object does not have the operation. -/
  | noSuchOperation
  /-- The number is beyond the floats or the sizes. -/
  | overflow
  | divisionByZero
  /-- The depth limit of an evaluation is used up. -/
  | tooDeep
  /-- The result would be larger than `Fault.memoryBound`. -/
  | outOfMemory
  /-- No way to compact the object was found, not even one that describes it. -/
  | notDispatched
deriving Inhabited

/-- A fault of a transform, which is told from one of the evaluation that applies it. -/
def Fault.ofTransform : Fault → Fault
  | .defect d => .defect (.ofTransform d)
  | f => f

/-- Gives the value, or fails with the fault. -/
def Fault.orElse {α : Type} (fault : Fault) : Option α → Except Fault α
  | some a => .ok a
  | none => .error fault

/-- Results with more characters or items than this are not built. -/
def Fault.memoryBound : Nat := 0x8000000

/-- Fails if a result would be too large. -/
def Fault.checkSize (size : Nat) : Except Fault Unit :=
  if size ≤ memoryBound then .ok () else .error .outOfMemory

end ParserGraph
