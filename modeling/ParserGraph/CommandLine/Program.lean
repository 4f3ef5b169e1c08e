import ParserGraph.Benchmark.Basic
import ParserGraph.Terminal

/-!
# Programs

What the program does to the outside, as data: texts are printed, records are logged, a file is
written, work is measured. A world carries it out; `Program.transcript` is what a world sees that
collects everything. A text consists of Unicode characters, so there is always a way to print it.
-/

namespace ParserGraph.CommandLine

/-- How a program ends. -/
inductive Ending
  /-- The exit code of a command that was carried out. -/
  | code (n : Nat)
  /-- The exit code if no command was carried out. -/
  | exit (n : Nat)
  | fault (f : Fault)
  | noSuchFile
  | isDirectory
  | notDirectory
  /-- The path of a file, or one of its names, is too long. -/
  | nameTooLong

/-- What is known of work after it was measured; the numbers are texts already. -/
structure Measurement where
  runs : String
  duration : String
  rate : String
  /-- What a profiler reports. -/
  profile : String

/-- The work of a benchmark and for how long it is to be repeated. -/
structure Work where
  parse : Unit → Except Fault Value
  warmup : Nat
  seconds : Float

/-- What a program does, step by step. -/
inductive Program
  | finish (ending : Ending)
  | print (text : String) (next : Program)
  | complain (text : String) (next : Program)
  | write (path text : String) (next : Program)
  | measure (work : Work) (next : Measurement → Program)

namespace Program

/-- Logs records on a terminal, those of a level that is wanted. -/
def log (t : Terminal) (verbose : Bool) (records : List Log.Record) (next : Program) : Program :=
  let wanted := records.filter fun r => (if verbose then Log.debug else Log.warning) ≤ r.level
  wanted.foldr (fun r next => .complain (t.logText r ++ "\n") next) next

end Program

/-- What was printed, complained of and written until the program ended. -/
structure Transcript where
  output : String := ""
  complaints : String := ""
  files : List (String × String) := []
  ending : Ending

/-- How a world answers the steps of a program: what measurements give, and what becomes of a file
that is written. A file that is seen afterwards has a name. -/
structure World where
  measurement : Measurement
  place : String → Except Ending (Option String)

/-- What a program does in a world. The measured work is carried out once. -/
def Program.transcript (w : World) : Program → Transcript
  | .finish ending => { ending }
  | .print text next =>
    let t := next.transcript w
    { t with output := text ++ t.output }
  | .complain text next =>
    let t := next.transcript w
    { t with complaints := text ++ t.complaints }
  | .write path text next =>
    match w.place path with
    | .error ending => { ending }
    | .ok name =>
      let t := next.transcript w
      { t with files := (name.map (·, text)).toList ++ t.files }
  | .measure work next =>
    match work.parse () with
    | .error f => { ending := .fault f }
    | .ok _ => (next w.measurement).transcript w

end ParserGraph.CommandLine
