import ParserGraph.Benchmark.Config
import ParserGraph.Generator
import ParserGraph.Grammar.Kinds

/-!
# Benchmarks

A benchmark parses one generated expression over and over. What takes time is left to the outside:
here are the work that is repeated, the check that precedes it and the result that follows it.
-/

namespace ParserGraph

/-- A benchmark that is ready to run. -/
structure Benchmark where
  config : Benchmark.Config
  language : Language
  expression : String

namespace Benchmark

/-- The length of the expression of the reference run. -/
def expectedLength : Nat := 41137

/-- The value of the expression of the reference run. -/
def expectedValue : Int := 31615

/-- Why a benchmark does not go on. -/
inductive Stop
  /-- The expression is not the expected one. -/
  | unexpected (what : String) (expected : Int) (got : Value)
  | fault (f : Fault)

/-- The message about an unexpected expression. -/
def unexpectedMessage (what : String) (expected : Int) (got : Value) : Except Fault String :=
  got.words.map fun got =>
    s!"Generated expression has the wrong {what}: expected {toString expected}, got {got}"

def record (level : Log.Level) (message : String) : Log.Record :=
  { level, logger := "combinators.benchmark", message }

/-- Generates the expression for a language. -/
def forLanguage (config : Config) (language : Language) : Benchmark :=
  { config, language, expression := (Generator.expression config.depth ⟨config.seed⟩).1 }

/-- What is logged of a new benchmark. -/
def generatedRecord (b : Benchmark) : Log.Record :=
  record Log.info
    s!"Generated a depth {toString b.config.depth} expression of {toString b.expression.length} characters"

/-- Makes a benchmark. Without a language the arithmetic grammar is made first, and logged. -/
def make (config : Config) : Option Language → Except Fault (Benchmark × List Log.Record)
  | some language =>
    let b := forLanguage config language
    .ok (b, [b.generatedRecord])
  | none => do
    let language ← GrammarKind.arithmetic.language
    let b := forLanguage config language
    return (b, language.log ++ [b.generatedRecord])

/-- The work that is measured: one parse. -/
def parseOnce (b : Benchmark) : Except Fault Value :=
  b.language.parse (.ofValue (.text b.expression))

/-- Checks the expression against the reference run: its length first, as a wrong expression is
known by it best, and then its value. -/
def check (b : Benchmark) : Except Stop Value := do
  let length := b.expression.length
  if length ≠ expectedLength then
    throw (.unexpected "length" expectedLength (.int length))
  match b.parseOnce with
  | .error f => throw (.fault f)
  | .ok v =>
    if !v.equal (.int expectedValue) then throw (.unexpected "value" expectedValue v)
    return v

/-- What precedes a measurement: the check if it is asked for and possible, a warning if it is
asked for and not possible. -/
def prepare (b : Benchmark) : Except Stop (List Log.Record) :=
  if !b.config.check then .ok []
  else if b.config.isReference then b.check.map fun _ => []
  else .ok [record Log.warning
    "Skipping the self-check: expected results are only known for the reference expression"]

/-- What is logged of a measurement. -/
def measuredRecord (runs duration : String) : Log.Record :=
  record Log.debug s!"{runs} runs in {duration}s"

/-- The result of a measurement. -/
structure Result where
  runs : Value
  duration : Value
  value : Value

/-- The number of runs in a second. -/
def Result.rate (r : Result) : Except Fault Float :=
  r.runs.divide r.duration

/-- The line that shows a rate. -/
def rateText (rate : String) : String :=
  s!"ParserCombinators: {rate} runs/sec"

/-- The line that shows a result. -/
def Result.text (r : Result) : Except Fault String :=
  r.rate.map fun x => rateText (Number.floatText Number.displayWords x)

end Benchmark

end ParserGraph
