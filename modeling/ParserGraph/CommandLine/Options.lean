import ParserGraph.CommandLine.Arguments
import ParserGraph.Number.Reading
import ParserGraph.Value.Basic

/-!
# The options of the program

The three commands of the program with their options, and the texts that explain them.
-/

namespace ParserGraph.CommandLine

/-- What the program is asked to do. Values of options are kept as they are given; a grammar is
known by its name, which is absent if no name was left. -/
inductive Request
  | eval (grammar : Option String) (expressions : List String)
  | bench (options : List (String × Value)) (profile : Bool)
  | graph (grammar : Option String) (output : Option String)

/-- The settings of the whole program. -/
structure Settings where
  verbose : Bool := false
  request : Option Request := none
  /-- Arguments of the command that nothing took. -/
  leftover : List String := []

/-! ## Texts -/

/-- Lines, each with its end. -/
def unlines (lines : List String) : String :=
  String.join (lines.map (· ++ "\n"))

def mainUsage : String :=
  unlines [
    "usage: combinators [-h] [-v] [--version] \x7beval,bench,graph\x7d ..."]

def mainHelp : String :=
  mainUsage ++ unlines [
    "",
    "Parser combinators - arithmetic expression grammar",
    "",
    "positional arguments:",
    "  \x7beval,bench,graph\x7d  Available commands",
    "    eval              Parse and evaluate expressions",
    "    bench             Time repeated parses of a generated expression",
    "    graph             Dump a compacted grammar graph",
    "",
    "options:",
    "  -h, --help          show this help message and exit",
    "  -v, --verbose       Enable verbose logging",
    "  --version           show program's version number and exit"]

def versionText : String :=
  "combinators 1.0.0\n"

def evalUsage : String :=
  unlines [
    "usage: combinators eval [-h] [--grammar \x7bdigits,expression\x7d]",
    "                        expressions [expressions ...]"]

def evalHelp : String :=
  evalUsage ++ unlines [
    "",
    "positional arguments:",
    "  expressions           Expressions to evaluate",
    "",
    "options:",
    "  -h, --help            show this help message and exit",
    "  --grammar \x7bdigits,expression\x7d",
    "                        Grammar to parse with"]

def benchUsage : String :=
  unlines [
    "usage: combinators bench [-h] [--depth DEPTH] [--seconds SECONDS]",
    "                         [--warmup WARMUP] [--seed SEED] [--no-check]",
    "                         [--profile]"]

def benchHelp : String :=
  benchUsage ++ unlines [
    "",
    "options:",
    "  -h, --help         show this help message and exit",
    "  --depth DEPTH      Nesting depth of the expression",
    "  --seconds SECONDS  Minimum time to measure for",
    "  --warmup WARMUP    Untimed parses before measuring",
    "  --seed SEED        Generator seed",
    "  --no-check         Skip the length/value self-check",
    "  --profile          Line-profile the parser while timing"]

def graphUsage : String :=
  unlines [
    "usage: combinators graph [-h] [--grammar \x7bdigits,expression\x7d] [-o OUTPUT]"]

def graphHelp : String :=
  graphUsage ++ unlines [
    "",
    "options:",
    "  -h, --help            show this help message and exit",
    "  --grammar \x7bdigits,expression\x7d",
    "                        Grammar to dump",
    "  -o OUTPUT, --output OUTPUT",
    "                        Write the dump to a file instead of stdout"]

/-! ## Options -/

/-- The names of the grammars, in order. -/
def grammarNames : List String := ["digits", "expression"]

/-- An option that shows a help text. -/
def helpOption {σ : Type} (help : String) : OptionRule σ :=
  ⟨["-h", "--help"], .shows help⟩

/-- An option that chooses a grammar. -/
def grammarOption {σ : Type} (set : Option String → σ → σ) : OptionRule σ :=
  ⟨["--grammar"], .argument fun
    | none, settings => .ok (set none settings)
    | some name, settings =>
      if grammarNames.contains name then .ok (set (some name) settings)
      else .error (Reader.invalidChoice name grammarNames)⟩

/-- The settings of the `eval` command. -/
structure EvalSettings where
  grammar : Option String := some "expression"
  expressions : List String := []

def evalReader : Reader EvalSettings where
  program := "combinators eval"
  usage := evalUsage
  options := [
    helpOption evalHelp,
    grammarOption fun grammar settings => { settings with grammar }]
  positional := .several "expressions" fun expressions settings => { settings with expressions }

/-- The settings of the `bench` command: the options of the benchmark by name. -/
structure BenchSettings where
  depth : Value := .int 20
  seconds : Value := .float 10.0
  warmup : Value := .int 3
  seed : Value := .int 0xCAFE
  noCheck : Bool := false
  profile : Bool := false

/-- A number as the argument of an option. Nothing at all is kept as an empty list. -/
def numberOption (name typeName : String) (read : List Char → Option Value)
    (set : Value → BenchSettings → BenchSettings) : OptionRule BenchSettings :=
  ⟨[name], .argument fun
    | none, settings => .ok (set (.list []) settings)
    | some text, settings =>
      match read text.toList with
      | some v => .ok (set v settings)
      | none => .error ("invalid " ++ typeName ++ " value: " ++ Text.quoted text)⟩

def readInteger (cs : List Char) : Option Value :=
  (Number.integer? cs).map .int

def readReal (cs : List Char) : Option Value :=
  (Number.real? cs).map .float

def readSeed (cs : List Char) : Option Value :=
  (Number.basedInteger? cs).map .int

def benchReader : Reader BenchSettings where
  program := "combinators bench"
  usage := benchUsage
  options := [
    helpOption benchHelp,
    numberOption "--depth" "int" readInteger fun depth settings => { settings with depth },
    numberOption "--seconds" "float" readReal fun seconds settings => { settings with seconds },
    numberOption "--warmup" "int" readInteger fun warmup settings => { settings with warmup },
    numberOption "--seed" "<lambda>" readSeed fun seed settings => { settings with seed },
    ⟨["--no-check"], .flag fun settings => { settings with noCheck := true }⟩,
    ⟨["--profile"], .flag fun settings => { settings with profile := true }⟩]
  positional := .nothing

/-- The settings of a benchmark as named values. -/
def BenchSettings.toFields (s : BenchSettings) : List (String × Value) :=
  [("depth", s.depth), ("seconds", s.seconds), ("warmup", s.warmup), ("seed", s.seed),
    ("check", .bool !s.noCheck), ("profile", .bool s.profile)]

/-- The settings of the `graph` command. -/
structure GraphSettings where
  grammar : Option String := some "expression"
  output : Option String := none

def graphReader : Reader GraphSettings where
  program := "combinators graph"
  usage := graphUsage
  options := [
    helpOption graphHelp,
    grammarOption fun grammar settings => { settings with grammar },
    ⟨["-o", "--output"], .argument fun output settings => .ok { settings with output }⟩]
  positional := .nothing

/-- Reads the arguments of a command. -/
def readCommand (command : String) (arguments : List String) (settings : Settings) :
    Except Stop Settings := do
  match command with
  | "eval" =>
    let (s, leftover) ← evalReader.read arguments {}
    return { settings with request := some (.eval s.grammar s.expressions), leftover }
  | "bench" =>
    let (s, leftover) ← benchReader.read arguments {}
    return { settings with request := some (.bench s.toFields s.profile), leftover }
  | _ =>
    let (s, leftover) ← graphReader.read arguments {}
    return { settings with request := some (.graph s.grammar s.output), leftover }

def mainReader : Reader Settings where
  program := "combinators"
  usage := mainUsage
  options := [
    helpOption mainHelp,
    ⟨["-v", "--verbose"], .flag fun settings => { settings with verbose := true }⟩,
    ⟨["--version"], .shows versionText⟩]
  positional := .command ["eval", "bench", "graph"] readCommand

/-- Reads the arguments of the program. Arguments that nothing took are refused. -/
def readSettings (arguments : List String) : Except Stop Settings := do
  let (settings, leftover) ← mainReader.read arguments {}
  let leftover := leftover ++ settings.leftover
  if !leftover.isEmpty then
    throw (mainReader.refuse ("unrecognized arguments: " ++ " ".intercalate leftover))
  return settings

end ParserGraph.CommandLine
