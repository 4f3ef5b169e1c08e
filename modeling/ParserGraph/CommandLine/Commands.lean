import ParserGraph.CommandLine.Options
import ParserGraph.CommandLine.Program
import ParserGraph.Report

/-!
# Commands

What the program does for each request.
-/

namespace ParserGraph.CommandLine

/-- What the program has from other packages. -/
structure Packages where
  terminal : Terminal
  /-- The options of a benchmark from named values, or a text on those that cannot be taken. -/
  validate : List (String × Value) → Except String Benchmark.Config

/-- The grammar of a name on the command line. -/
def grammarKind? : Option String → Option GrammarKind
  | some "expression" => some .arithmetic
  | some "digits" => some .digits
  | _ => none

/-- A new grammar of a name; without a name there is none to find. -/
def language (name : Option String) : Except Fault Language := do
  (← Fault.wrongType.orElse (grammarKind? name)).language

/-- Ends with a fault if there is no value. -/
def orFault {α : Type} (result : Except Fault α) (next : α → Program) : Program :=
  match result with
  | .ok a => next a
  | .error f => .finish (.fault f)

/-- Reports on texts one after another, whether they match or not; the exit code tells whether all
of them do. -/
def reportAll (t : Terminal) (verbose : Bool) (l : Language) : List String → Bool → Program
  | [], allMatched => .finish (.code (if allMatched then 0 else 1))
  | text :: rest, allMatched =>
    orFault (l.report t text) fun r =>
      .log t verbose r.log (.print r.output (reportAll t verbose l rest (allMatched && r.matched)))

/-- Evaluates expressions. -/
def evalProgram (t : Terminal) (verbose : Bool) (grammar : Option String)
    (expressions : List String) : Program :=
  orFault (language grammar) fun l => .log t verbose l.log (reportAll t verbose l expressions true)

def record (level : Log.Level) (message : String) : Log.Record :=
  { level, logger := "combinators.cli", message }

/-- Runs a benchmark. -/
def benchProgram (p : Packages) (verbose : Bool) (options : List (String × Value))
    (profile : Bool) : Program :=
  let log := Program.log p.terminal verbose
  match p.validate options with
  | .error issues =>
    log [record Log.error ("Invalid benchmark options:\n" ++ issues)] (.finish (.code 2))
  | .ok config =>
    orFault (Benchmark.make config none) fun (b, made) =>
      log made <|
        match b.prepare with
        | .error (.fault f) => .finish (.fault f)
        | .error (.unexpected what expected got) =>
          orFault (Benchmark.unexpectedMessage what expected got) fun message =>
            log [record Log.error message] (.finish (.code 1))
        | .ok records =>
          log records <|
            .measure ⟨fun () => b.parseOnce, config.warmup, config.seconds⟩ fun m =>
              log [Benchmark.measuredRecord m.runs m.duration] <|
                .print (Benchmark.rateText m.rate ++ "\n") <|
                  if profile then .print m.profile (.finish (.code 0)) else .finish (.code 0)

/-- Dumps the graph of a grammar, to a file if one is named. -/
def graphProgram (t : Terminal) (verbose : Bool) (grammar output : Option String) : Program :=
  orFault (language grammar) fun l =>
    .log t verbose l.log <|
      orFault l.dump fun dump =>
        match output with
        | none | some "" => .print (dump.text ++ "\n") (.finish (.code 0))
        | some path =>
          .write path dump.text <|
            .log t verbose
              [record Log.info s!"Wrote {toString dump.entries.length} nodes to {path}"]
              (.finish (.code 0))

/-- What the program does for its arguments. -/
def program (p : Packages) (arguments : List String) : Program :=
  match readSettings arguments with
  | .error (.shown text) => .print text (.finish (.exit 0))
  | .error (.refused usage name complaint) =>
    .complain (usage ++ name ++ ": error: " ++ complaint ++ "\n") (.finish (.exit 2))
  | .ok settings =>
    match settings.request with
    | some (.eval grammar expressions) =>
      evalProgram p.terminal settings.verbose grammar expressions
    | some (.bench options profile) => benchProgram p settings.verbose options profile
    | some (.graph grammar output) => graphProgram p.terminal settings.verbose grammar output
    | none => .print mainHelp (.finish (.code 1))

end ParserGraph.CommandLine
