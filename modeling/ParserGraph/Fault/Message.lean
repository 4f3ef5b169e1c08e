import ParserGraph.Fault
import ParserGraph.Value.Display

/-!
# Messages of defects

The sentence for each defect. The text of an object depends on where the object lives, so it is
given from outside; it may itself fail, and so may the text of a name or a bound.
-/

namespace ParserGraph.Defect

/-- A sentence about a name, with what stands before and after it. -/
def sentence (before : String) (name : Value) (after : String) : Except Fault String :=
  name.words.map fun name => before ++ name ++ after

/-- A sentence about an object, which ends it. -/
def sentenceOn (text : Except Fault String) (before : String) : Except Fault String :=
  text.map (before ++ ·)

/-- The message of a defect, given the text of an object. -/
def message (display : Object → Except Fault String) : Defect → Except Fault String
  | .emptyRange lower upper => do
    let lower ← lower.display
    let upper ← upper.display
    return s!"Empty literal range: {lower}..{upper}"
  | .emptySequence => .ok "A sequence needs at least one parser"
  | .alreadyBound name => sentence "Forward reference parser '" name "' already bound"
  | .boundToNonParser name object => do
    sentenceOn (display object) (← sentence "Forward reference parser '" name "' bound to a non-parser: ")
  | .parsedForward name =>
    sentence "Forward reference parser '" name "' should be compacted away before parsing"
  | .notAParser object => sentenceOn (display object) "Not a parser node: "
  | .zeroWidthRepetition parser =>
    sentenceOn (display parser) "Repeated parser matched without consuming input: "
  | .neverBound name => sentence "Forward reference parser '" name "' was never bound"
  | .boundToItself name => sentence "Forward reference parser '" name "' is bound to itself"
  | .neverBoundReachable names =>
    .ok ("Forward reference parsers never bound: " ++ ", ".intercalate names)
  | .alreadyDeclared name => sentence "Production '" name "' is already declared"
  | .notDeclared name => sentence "Production '" name "' is not declared"
  | .notCompiled className => .ok s!"{className} has not been compiled"
  | .refused text => .ok text
  | .ofTransform d => d.message display

end ParserGraph.Defect
