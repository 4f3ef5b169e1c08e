/-!
# Log records

What is logged, as values: a record is put into words only where it leaves the program.
-/

namespace ParserGraph.Log

/-- The level of a record; larger is more severe. -/
abbrev Level := Int

def debug : Level := 10

def info : Level := 20

def warning : Level := 30

def error : Level := 40

def critical : Level := 50

/-- The name of a level; a level between the known ones is named by its number. -/
def levelName (level : Level) : String :=
  if level = 0 then "NOTSET"
  else if level = debug then "DEBUG"
  else if level = info then "INFO"
  else if level = warning then "WARNING"
  else if level = error then "ERROR"
  else if level = critical then "CRITICAL"
  else "Level " ++ toString level

/-- One message of a part of the program. -/
structure Record where
  level : Level
  logger : String
  message : String
deriving DecidableEq

/-- A record on one line. -/
def Record.line (r : Record) : String :=
  levelName r.level ++ " " ++ r.logger ++ ": " ++ r.message

end ParserGraph.Log
