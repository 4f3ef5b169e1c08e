import ParserGraph.CommandLine.Packages

/-!
# The program

Carries out the program for the arguments of the command line.
-/

namespace ParserGraph.CommandLine

/-- A time in nanoseconds as seconds with three places. -/
def secondsText (nanoseconds : Nat) : String :=
  let milliseconds := Number.divideRounded nanoseconds 1000000
  let places := toString (milliseconds % 1000)
  toString (milliseconds / 1000) ++ "." ++
    String.ofList (List.replicate (3 - places.length) '0') ++ places

/-- A time in nanoseconds in seconds. -/
def seconds (nanoseconds : Nat) : Float :=
  Float.ofNat nanoseconds / 1000000000.0

/-- Repeats work, first without measuring it and then for the time that is wanted. -/
def timed (work : Work) : IO (Except Fault Measurement) := do
  for _ in [0:work.warmup] do
    if let .error f := work.parse () then return .error f
  let start ← IO.monoNanosNow
  let mut runs := 0
  let mut elapsed := 0
  while runs = 0 || seconds elapsed < work.seconds do
    if let .error f := work.parse () then return .error f
    runs := runs + 1
    elapsed := (← IO.monoNanosNow) - start
  return .ok {
    runs := toString runs
    duration := secondsText elapsed
    rate := Number.floatText Number.displayWords (Float.ofNat runs / seconds elapsed)
    profile := s!"{toString runs} runs of the parser took {secondsText elapsed}s\n" }

/-- Ends with an exit code, and a word on why if no command has ended by itself. -/
def Ending.carryOut : Ending → IO UInt32
  | .code n | .exit n => return UInt32.ofNat n
  | .fault _ => do
    IO.eprintln "The evaluation was ended by a fault."
    return 1
  | .noSuchFile | .isDirectory | .notDirectory | .nameTooLong => do
    IO.eprintln "The file cannot be written."
    return 1

/-- Carries out a program. -/
def Program.carryOut : Program → IO UInt32
  | .finish ending => ending.carryOut
  | .print text next => do
    IO.print text
    next.carryOut
  | .complain text next => do
    IO.eprint text
    next.carryOut
  | .write path text next => do
    match ← (IO.FS.writeFile path text).toBaseIO with
    | .ok () => next.carryOut
    | .error e =>
      IO.eprintln (toString e)
      return 1
  | .measure work next => do
    match ← timed work with
    | .ok m => (next m).carryOut
    | .error f => (Ending.fault f).carryOut

end ParserGraph.CommandLine

/-- Runs the program with the given arguments. -/
def main (arguments : List String) : IO UInt32 :=
  (ParserGraph.CommandLine.program ParserGraph.CommandLine.packages arguments).carryOut
