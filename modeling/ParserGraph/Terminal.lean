import ParserGraph.Log

/-!
# Coloured output

The form of log records on a terminal. What selects a colour is the terminal's affair; here it is any
text.
-/

namespace ParserGraph

/-- The control sequences of a terminal: each gives what follows it a colour or a style. -/
structure Terminal where
  red : String
  green : String
  yellow : String
  cyan : String
  white : String
  bright : String
  /-- Back to the colour and style that the terminal starts with. -/
  reset : String

namespace Terminal

/-- The colour of a level; levels without a name have none. -/
def levelColour (t : Terminal) (level : Log.Level) : String :=
  if level = Log.debug then t.cyan
  else if level = Log.info then t.green
  else if level = Log.warning then t.yellow
  else if level = Log.error then t.red
  else if level = Log.critical then t.red ++ t.bright
  else ""

/-- A log record in the colour of its level. -/
def logText (t : Terminal) (r : Log.Record) : String :=
  let text := "[" ++ r.logger ++ "] [" ++ Log.levelName r.level ++ "] " ++ r.message
  let colour := t.levelColour r.level
  if colour.isEmpty then text else colour ++ text ++ t.reset

end Terminal

end ParserGraph
