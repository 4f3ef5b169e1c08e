import ParserGraph.Grammar.Basic
import ParserGraph.Terminal

/-!
# Reports of evaluations

What becomes of a text that is evaluated by a grammar: its value, or a complaint that it does not
match, and the coloured line that shows either.
-/

namespace ParserGraph

/-- Why a text has no value. -/
inductive EvaluationError
  /-- The text does not match the grammar. -/
  | noMatch (text : String)
  | fault (f : Fault)

/-- The message about a text that does not match. -/
def noMatchMessage (text : String) : String :=
  "Input did not match the grammar: " ++ Text.quoted text

/-- The value of a text. -/
def Language.evaluate (l : Language) (text : String) : Except EvaluationError Value :=
  match l.parse (.ofValue (.text text)) with
  | .error f => .error (.fault f)
  | .ok .failure => .error (.noMatch text)
  | .ok v => .ok v

/-- The report of one evaluation. -/
structure Report where
  matched : Bool
  output : String
  log : List Log.Record

namespace Report

/-- The line for a text and the words for its value. -/
def matchedLine (t : Terminal) (text words : String) : String :=
  t.white ++ t.bright ++ text ++ t.reset ++ " = " ++ t.green ++ words ++ t.reset ++ "\n"

/-- The line for a text that does not match. -/
def unmatchedLine (t : Terminal) (text : String) : String :=
  t.red ++ t.bright ++ text ++ t.reset ++ " <- does not match\n"

end Report

/-- Evaluates a text and reports on it; only a fault is no report. -/
def Language.report (l : Language) (t : Terminal) (text : String) : Except Fault Report :=
  match l.evaluate text with
  | .ok v => v.words.map fun words =>
    { matched := true, output := Report.matchedLine t text words, log := [] }
  | .error (.noMatch _) =>
    .ok {
      matched := false
      output := Report.unmatchedLine t text
      log := [⟨Log.debug, "combinators.driver", noMatchMessage text⟩] }
  | .error (.fault f) => .error f

end ParserGraph
