import ParserGraph.Text.Quoted
import ParserGraph.Text.DecimalDigit

/-!
# Reading command line arguments

A command line is read by a `Reader`: the options of a program, each with its effect on the
settings, and what the program does with arguments that are no options. A long option may be
shortened as long as it stays unambiguous, and takes its argument after an equals sign or from the
next place; short options may be run together. Everything after a lone double hyphen is an
argument.

Reading is total: each step uses up at least one of the items that are left.
-/

namespace ParserGraph.CommandLine

/-- Why a command line is not carried out. -/
inductive Stop
  /-- A text was asked for and is shown. -/
  | shown (text : String)
  /-- The arguments cannot be taken: the usage is shown with a complaint. -/
  | refused (usage program complaint : String)

/-- What an option does with the settings. -/
inductive Effect (σ : Type)
  /-- Takes no argument. -/
  | flag (apply : σ → σ)
  /-- Takes no argument and ends the reading with a text. -/
  | shows (text : String)
  /-- Takes an argument, which is absent if it was nothing but a double hyphen. -/
  | argument (apply : Option String → σ → Except String σ)

/-- An option with its names. -/
structure OptionRule (σ : Type) where
  names : List String
  effect : Effect σ

/-- What a program does with arguments that are no options. -/
inductive Positional (σ : Type)
  | nothing
  /-- At least one argument, up to the next option. -/
  | several (name : String) (apply : List String → σ → σ)
  /-- One argument that chooses a command, and everything after it. -/
  | command (choices : List String) (apply : String → List String → σ → Except Stop σ)

/-- How a program reads its arguments. -/
structure Reader (σ : Type) where
  program : String
  usage : String
  options : List (OptionRule σ)
  positional : Positional σ

/-- An option that was found in an argument. -/
structure Found (σ : Type) where
  rule : OptionRule σ
  name : String
  attached : Option String

/-- What an argument may be taken for. -/
inductive Mark (σ : Type)
  | argument
  | separator
  | option (found : Found σ)
  | unknownOption

/-- An argument with its mark. -/
structure Item (σ : Type) where
  text : String
  mark : Mark σ

namespace Reader

variable {σ : Type}

def refuse (r : Reader σ) (complaint : String) : Stop :=
  .refused r.usage r.program complaint

/-- A complaint about an option is preceded by all its names. -/
def refuseOption (r : Reader σ) (rule : OptionRule σ) (complaint : String) : Stop :=
  r.refuse ("argument " ++ "/".intercalate rule.names ++ ": " ++ complaint)

/-- All names with their options, in order. -/
def names (r : Reader σ) : List (String × OptionRule σ) :=
  r.options.flatMap fun rule => rule.names.map (·, rule)

def find? (r : Reader σ) (name : String) : Option (OptionRule σ) :=
  r.names.lookup name

/-! ## Marking -/

/-- Splits at the first equals sign. -/
def splitEquals (text : String) : String × Option String :=
  let cs := text.toList
  let name := String.ofList (cs.takeWhile (· ≠ '='))
  match cs.dropWhile (· ≠ '=') with
  | [] => (name, none)
  | _ :: rest => (name, some (String.ofList rest))

/-- The options that an argument may be an abbreviation of. A short option may have its argument
attached. -/
def candidates (r : Reader σ) (text : String) : List (Found σ) :=
  match text.toList with
  | '-' :: '-' :: _ =>
    let (name, attached) := splitEquals text
    r.names.filterMap fun (full, rule) =>
      if name.toList.isPrefixOf full.toList then some ⟨rule, full, attached⟩ else none
  | '-' :: c :: rest =>
    r.names.filterMap fun (full, rule) =>
      if full.toList = ['-', c] then some ⟨rule, full, some (String.ofList rest)⟩
      else if text.toList.isPrefixOf full.toList then some ⟨rule, full, none⟩
      else none
  | _ => []

/-- A hyphen and a number, which may be a fraction; a line end may follow. -/
def looksNegative (cs : List Char) : Bool :=
  let isDigit (c : Char) : Bool := (Text.decimalDigit? c).isSome
  match cs with
  | '-' :: rest =>
    let places (cs : List Char) : Bool :=
      !cs.isEmpty && (cs.dropWhile isDigit).isEmpty
    let rest := if rest.getLast? = some '\n' then rest.dropLast else rest
    match rest.dropWhile isDigit with
    | '.' :: fraction => places fraction
    | _ => places rest
  | _ => false

/-- Marks one argument. -/
def mark (r : Reader σ) (text : String) : Except Stop (Mark σ) :=
  let cs := text.toList
  if cs.head? ≠ some '-' then .ok .argument
  else match r.find? text with
    | some rule => .ok (.option ⟨rule, text, none⟩)
    | none =>
      if cs.length = 1 then .ok .argument
      else
        let (name, attached) := splitEquals text
        match attached, r.find? name with
        | some attached, some rule => .ok (.option ⟨rule, name, some attached⟩)
        | _, _ =>
          match r.candidates text with
          | [found] => .ok (.option found)
          | [] =>
            .ok (if looksNegative cs || cs.contains ' ' then .argument else .unknownOption)
          | several =>
            .error (r.refuse ("ambiguous option: " ++ text ++ " could match " ++
              ", ".intercalate (several.map (·.name))))

/-- Marks the arguments up to the first lone double hyphen; those after it are no options. -/
def markAll (r : Reader σ) : List String → Except Stop (List (Item σ))
  | [] => .ok []
  | "--" :: rest => .ok (⟨"--", .separator⟩ :: rest.map (⟨·, .argument⟩))
  | text :: rest => do
    let item := ⟨text, ← r.mark text⟩
    return item :: (← markAll r rest)

/-! ## Applying -/

def isOption : Item σ → Bool
  | ⟨_, .option _⟩ | ⟨_, .unknownOption⟩ => true
  | _ => false

/-- Whether an item can be nothing but an argument. -/
def isArgument : Item σ → Bool
  | ⟨_, .argument⟩ => true
  | _ => false

def isSeparator : Item σ → Bool
  | ⟨_, .separator⟩ => true
  | _ => false

/-- An option with its argument, ready to take effect. -/
structure Ready (σ : Type) where
  rule : OptionRule σ
  argument : Option String

/-- Takes apart short options that are run together: a flag may be followed by another option. -/
def cluster (r : Reader σ) (rule : OptionRule σ) (name : String) :
    List Char → Except Stop (List (Ready σ) × Option (OptionRule σ))
  | [] =>
    match rule.effect with
    | .argument _ => .ok ([], some rule)
    | _ => .ok ([⟨rule, none⟩], none)
  | c :: attached =>
    match rule.effect with
    | .argument _ => .ok ([⟨rule, some (String.ofList (c :: attached))⟩], none)
    | _ =>
      let complaint := "ignored explicit argument " ++ Text.quoted (String.ofList (c :: attached))
      if name.startsWith "--" then .error (r.refuseOption rule complaint)
      else match r.find? (String.ofList ['-', c]) with
        | none => .error (r.refuseOption rule complaint)
        | some next => do
          let (more, waiting) ← r.cluster next (String.ofList ['-', c]) attached
          return (⟨rule, none⟩ :: more, waiting)

/-- Lets an option take effect. -/
def apply (r : Reader σ) (settings : σ) (ready : Ready σ) : Except Stop σ :=
  match ready.rule.effect with
  | .flag f => .ok (f settings)
  | .shows text => .error (.shown text)
  | .argument f =>
    let argument := if ready.argument = some "--" then none else ready.argument
    match f argument settings with
    | .ok settings => .ok settings
    | .error complaint => .error (r.refuseOption ready.rule complaint)

/-- Reads an option and the item after it, if that is its argument; gives the items left. -/
def readOption (r : Reader σ) (found : Found σ) (rest : List (Item σ)) (settings : σ) :
    Except Stop (σ × List (Item σ)) := do
  let (ready, waiting) : List (Ready σ) × Option (OptionRule σ) ←
    match found.attached, found.rule.effect with
    | some "", .argument _ => pure ([⟨found.rule, some ""⟩], none)
    | some "", _ =>
      throw (r.refuseOption found.rule ("ignored explicit argument " ++ Text.quoted ""))
    | attached, _ => r.cluster found.rule found.name ((attached.map String.toList).getD [])
  match waiting, rest with
  | none, _ => return (← ready.foldlM r.apply settings, rest)
  | some rule, ⟨text, .argument⟩ :: rest =>
    return (← (ready ++ [Ready.mk rule (some text)]).foldlM r.apply settings, rest)
  | some rule, _ => throw (r.refuseOption rule "expected one argument")

/-- The settings so far, the arguments that nothing took, and whether arguments that are no options
are still expected. -/
structure Progress (σ : Type) where
  settings : σ
  leftover : List String := []
  expecting : Bool := true

/-- Splits off the arguments that a program takes together, if they can start here. -/
def splitPositional (r : Reader σ) (items : List (Item σ)) :
    Option (List (Item σ) × List (Item σ)) :=
  match (items.dropWhile isSeparator).head?.any isArgument, r.positional with
  | true, .several .. => some (items.takeWhile (!isOption ·), items.dropWhile (!isOption ·))
  | true, .command .. => some (items, [])
  | _, _ => none

/-- The complaint about an argument that is none of the choices. -/
def invalidChoice (text : String) (choices : List String) : String :=
  "invalid choice: " ++ Text.quoted text ++ " (choose from " ++
    ", ".intercalate (choices.map Text.quoted) ++ ")"

/-- Reads arguments that are no options. -/
def readPositional (r : Reader σ) (texts : List String) (settings : σ) : Except Stop σ :=
  match r.positional, texts with
  | .several _ apply, texts => .ok (apply (texts.erase "--") settings)
  | .command choices apply, text :: rest =>
    if choices.contains text then apply text rest settings
    else .error (r.refuse ("argument command: " ++ invalidChoice text choices))
  | _, _ => .ok settings

/-- Reads the items that are left. Each step but the last uses up an item, so as many steps as
there are items, and one more, are enough. -/
def readItems (r : Reader σ) : Nat → List (Item σ) → Progress σ → Except Stop (Progress σ)
  | 0, _, p => .ok p
  | _, [], p => .ok p
  | steps + 1, item :: rest, p =>
    match item.mark with
    | .option found => do
      let (settings, rest) ← r.readOption found rest p.settings
      r.readItems steps rest { p with settings }
    | .unknownOption => r.readItems steps rest { p with leftover := p.leftover ++ [item.text] }
    | _ =>
      match if p.expecting then r.splitPositional (item :: rest) else none with
      | some (taken, rest) => do
        let settings ← r.readPositional (taken.map (·.text)) p.settings
        r.readItems steps rest { p with settings, expecting := false }
      | none =>
        let skipped := (item :: rest).takeWhile (!isOption ·)
        r.readItems steps ((item :: rest).dropWhile (!isOption ·))
          { p with leftover := p.leftover ++ skipped.map (·.text) }

/-- Reads arguments: the settings, and the arguments that nothing took. -/
def read (r : Reader σ) (arguments : List String) (settings : σ) :
    Except Stop (σ × List String) := do
  let items ← r.markAll arguments
  let p ← r.readItems (items.length + 1) items { settings }
  match r.positional with
  | .several name _ =>
    if p.expecting then
      throw (r.refuse ("the following arguments are required: " ++ name))
  | _ => pure ()
  return (p.settings, p.leftover)

end Reader

end ParserGraph.CommandLine
