import ParserGraph.CommandLine.Commands

/-!
# Packages

What the program is run with. What is proved of the program holds for any packages that it is given
(`CommandLine.Packages`).

The options of a benchmark are given as values and are taken with some leeway: a number may come as
a text, a truth value as a word. What cannot be taken is reported for all options at once.
-/

namespace ParserGraph.Benchmark

/-- What is wrong with the value of an option. -/
inductive Complaint
  | notAnInteger
  | unreadableInteger
  | integerTooLong
  | fractionalInteger
  | infiniteInteger
  | notANumber
  | unreadableNumber
  | notATruthValue
  | unreadableTruthValue
  | negative
  | notPositive
  /-- Options cannot be changed. -/
  | frozen
deriving DecidableEq

namespace Complaint

/-- The short name of a complaint. -/
def code : Complaint → String
  | .notAnInteger => "int_type"
  | .unreadableInteger => "int_parsing"
  | .integerTooLong => "int_parsing_size"
  | .fractionalInteger => "int_from_float"
  | .infiniteInteger => "finite_number"
  | .notANumber => "float_type"
  | .unreadableNumber => "float_parsing"
  | .notATruthValue => "bool_type"
  | .unreadableTruthValue => "bool_parsing"
  | .negative => "greater_than_equal"
  | .notPositive => "greater_than"
  | .frozen => "frozen_instance"

def message : Complaint → String
  | .notAnInteger => "Input should be a valid integer"
  | .unreadableInteger =>
    "Input should be a valid integer, unable to parse string as an integer"
  | .integerTooLong => "Unable to parse input string as an integer, exceeded maximum size"
  | .fractionalInteger =>
    "Input should be a valid integer, got a number with a fractional part"
  | .infiniteInteger => "Input should be a finite number"
  | .notANumber => "Input should be a valid number"
  | .unreadableNumber => "Input should be a valid number, unable to parse string as a number"
  | .notATruthValue => "Input should be a valid boolean"
  | .unreadableTruthValue => "Input should be a valid boolean, unable to interpret input"
  | .negative => "Input should be greater than or equal to 0"
  | .notPositive => "Input should be greater than 0"
  | .frozen => "Instance is frozen"

end Complaint

/-- A complaint about an option. -/
structure Issue where
  complaint : Complaint
  field : String
  input : Value

/-! ## Reading options -/

/-- A text, or bytes that encode one; bytes that do not are `none` inside. -/
def asText? : Value → Option (Option (List Char))
  | .text s => some (some s.toList)
  | .bytes bs => some ((String.fromUTF8? ⟨bs.toArray⟩).map String.toList)
  | _ => none

/-- The characters from the first digit that counts: zeros in front do not, nor underscores between
them. `zero` is the character before, which stays if no other digit is left before the end or a
point. -/
def afterZeros (zero : Char) : List Char → Option (List Char)
  | [] => some [zero]
  | c :: cs =>
    if c = '0' ∨ c = '_' then afterZeros c cs
    else if ('1' ≤ c ∧ c ≤ '9') ∨ c = '-' then some (c :: cs)
    else if c = '.' then some (zero :: c :: cs)
    else none

/-- A number that begins with a digit, without zeros in front. -/
def withoutZeros? : List Char → Option (List Char)
  | '0' :: cs => afterZeros '0' cs
  | c :: cs => if '1' ≤ c ∧ c ≤ '9' then some (c :: cs) else none
  | [] => none

/-- A number without a point that only zeros follow, at least one. -/
def withoutPlaces (cs : List Char) : List Char :=
  let places := (cs.dropWhile (· ≠ '.')).drop 1
  if !places.isEmpty ∧ places.all (· = '0') then cs.takeWhile (· ≠ '.') else cs

/-- The plain form of the text of an integer: without blanks around it, a plus sign, zeros in
front, zeros after a point and single underscores. -/
def plainInteger? (cs : List Char) : Option (List Char) := do
  let (negative, digits) ← match Text.trim cs with
    | '+' :: '-' :: _ => none
    | '+' :: cs => some (false, cs)
    | '-' :: cs => some (true, cs)
    | cs => some (false, cs)
  let digits := withoutPlaces (← withoutZeros? digits)
  let digits := (Number.withoutUnderscores? digits).getD digits
  return if negative then '-' :: digits else digits

/-- The number of digits of the plain integer that a text begins with; none if zeros stand in
front. -/
def leadingDigits (cs : List Char) : Nat :=
  let digits := match cs with
    | '-' :: cs => cs
    | cs => cs
  if digits.head? = some '0' then 0 else (digits.takeWhile fun c => '0' ≤ c ∧ c ≤ '9').length

/-- The value of a plain integer: a minus sign at most, and digits that begin with zero only if
zero is all. -/
def ofPlain? (cs : List Char) : Option Int := do
  let (negative, cs) := match cs with
    | '-' :: cs => (true, cs)
    | cs => (false, cs)
  let digits ← cs.mapM (Number.digit? 10)
  if digits.isEmpty ∨ digits.head? = some 0 ∧ 1 < digits.length then none
  if Number.maxDigits < digits.length then none
  return Number.signed negative (Number.ofDigits 10 digits)

/-- The integer in a text. That it has too many digits is told only of a text that begins with
them. -/
def readIntegerText (cs : List Char) : Except Complaint Int :=
  if Number.maxDigits < leadingDigits cs then .error .integerTooLong
  else match (plainInteger? cs).bind ofPlain? with
    | some n => .ok n
    | none => .error .unreadableInteger

/-- A float is taken for an integer if its magnitude is below this. -/
def wordBound : Nat := 0x8000000000000000

/-- An integer, or a value that can be taken for one. -/
def readInteger (v : Value) : Except Complaint Int :=
  match v with
  | .bool b => .ok b.toInt
  | .int n => .ok n
  | .float x =>
    match Number.meaning x with
    | .finite negative magnitude =>
      let (num, den) := magnitude.ratio
      if num % den ≠ 0 then .error .fractionalInteger
      else if num / den < wordBound then .ok (Number.signed negative (num / den))
      else .error .integerTooLong
    | _ => .error .infiniteInteger
  | v =>
    match asText? v with
    | some (some cs) => readIntegerText cs
    | some none => .error .unreadableInteger
    | none => .error .notAnInteger

/-- An integer that is not negative. -/
def readNatural (v : Value) : Except Complaint Nat := do
  let n ← readInteger v
  if n < 0 then throw .negative
  return n.toNat

/-- A real number in a text; underscores are left out if it cannot be read otherwise. -/
def readRealText (cs : List Char) : Except Complaint Float :=
  match Number.plainReal? (Text.trim cs) with
  | some x => .ok x
  | none =>
    match (Number.withoutUnderscores? cs).bind Number.plainReal? with
    | some x => .ok x
    | none => .error .unreadableNumber

/-- A number, or a value that can be taken for one. -/
def readReal (v : Value) : Except Complaint Float :=
  match v.toFloat with
  | .ok x => .ok x
  | .error _ =>
    match asText? v with
    | some (some cs) => readRealText cs
    | some none => .error .unreadableNumber
    | none => .error .notANumber

/-- A number above zero. -/
def readPositive (v : Value) : Except Complaint Float := do
  let x ← readReal v
  if !(0.0 < x) then throw .notPositive
  return x

/-- The truth value that a word stands for. -/
def readWord (word : String) : Except Complaint Bool :=
  if ["0", "off", "f", "false", "n", "no"].contains word then .ok false
  else if ["1", "on", "t", "true", "y", "yes"].contains word then .ok true
  else .error .unreadableTruthValue

/-- The truth value of a number. -/
def truthOfNumber (n : Int) : Except Complaint Bool :=
  if n = 0 then .ok false else if n = 1 then .ok true else .error .unreadableTruthValue

/-- A truth value, or a value that can be taken for one. -/
def readTruth (v : Value) : Except Complaint Bool :=
  match v with
  | .bool b => .ok b
  | .int n =>
    if -(wordBound : Int) ≤ n ∧ n < wordBound then truthOfNumber n else .error .notATruthValue
  | .float _ =>
    match readInteger v with
    | .ok n => truthOfNumber n
    | .error _ => .error .notATruthValue
  | v =>
    match asText? v with
    | some (some cs) => readWord (String.ofList (cs.map Char.toLower))
    | some none => .error .unreadableTruthValue
    | none => .error .notATruthValue

/-- The value of an option, or its default, with the issue if it cannot be taken. -/
def readField {α : Type} (fields : List (String × Value)) (field : String) (default : α)
    (read : Value → Except Complaint α) : α × List Issue :=
  match fields.lookup field with
  | none => (default, [])
  | some v =>
    match read v with
    | .ok a => (a, [])
    | .error complaint => (default, [{ complaint, field, input := v }])

/-- Takes the options from named values; all issues are reported, in the order of the options.
Names that are no options do not count. -/
def Config.ofFields (fields : List (String × Value)) : Except (List Issue) Config :=
  let defaults : Config := {}
  let (depth, issues₁) := readField fields "depth" defaults.depth readNatural
  let (seconds, issues₂) := readField fields "seconds" defaults.seconds readPositive
  let (warmup, issues₃) := readField fields "warmup" defaults.warmup readNatural
  let (seed, issues₄) := readField fields "seed" defaults.seed readInteger
  let (check, issues₅) := readField fields "check" defaults.check readTruth
  let (profile, issues₆) := readField fields "profile" defaults.profile readTruth
  let issues := issues₁ ++ issues₂ ++ issues₃ ++ issues₄ ++ issues₅ ++ issues₆
  if issues.isEmpty then .ok { depth, seconds, warmup, seed, check, profile } else .error issues

/-- The options as named values. -/
def Config.toFields (c : Config) : List (String × Value) :=
  [("depth", .int c.depth), ("seconds", .float c.seconds), ("warmup", .int c.warmup),
    ("seed", .int c.seed), ("check", .bool c.check), ("profile", .bool c.profile)]

/-- What keeps an attribute from being set. -/
inductive Refusal
  | issue (i : Issue)
  | fault (f : Fault)

/-- Setting an option afterwards is refused, whatever the value. A name that begins with an
underscore is none of an option and is set, but for a few: the class would have to be a class and
the dictionary a dictionary, and what is worked out from the options is only read. -/
def Config.assign (_ : Config) (field : String) (v : Value) : Except Refusal Unit :=
  if field.toList.head? ≠ some '_' then .error (.issue { complaint := .frozen, field, input := v })
  else match field, v with
    | "__class__", _ => .error (.fault .wrongType)
    | "__dict__", .dict _ => .ok ()
    | "__dict__", _ => .error (.fault .wrongType)
    | "__weakref__", _ | "__fields__", _ | "__fields_set__", _ => .error (.fault .noSuchOperation)
    | _, _ => .ok ()

/-! ## The text of issues -/

/-- The name of the type of a value. -/
def typeName : Value → String
  | .null => "NoneType"
  | .bool _ => "bool"
  | .int _ => "int"
  | .float _ => "float"
  | .text _ => "str"
  | .bytes _ => "bytes"
  | .list _ => "list"
  | .dict _ => "dict"
  | .failure => "ParseFailure"

/-- A long text is cut in the middle. -/
def shortened (s : String) : String :=
  let cs := s.toList
  if 50 < cs.length then
    String.ofList (cs.take 25) ++ "..." ++ String.ofList (cs.drop (cs.length - 24))
  else s

/-- An issue in two lines. -/
def Issue.text (i : Issue) : String :=
  s!"{i.field}\n  {i.complaint.message} [type={i.complaint.code}, " ++
    s!"input_value={shortened i.input.spelling}, input_type={typeName i.input}]"

/-- All issues in one text. -/
def issuesText (issues : List Issue) : String :=
  let count := issues.length
  let plural := if count = 1 then "" else "s"
  "\n".intercalate
    (s!"{toString count} validation error{plural} for BenchmarkConfig" :: issues.map Issue.text)

end ParserGraph.Benchmark

namespace ParserGraph

/-- A terminal that selects colours and styles by their numbers. -/
def Terminal.numbered : Terminal :=
  let select (code : Nat) := String.ofList [Char.ofNat 0x1B, '['] ++ toString code ++ "m"
  {
    red := select 31
    green := select 32
    yellow := select 33
    cyan := select 36
    white := select 37
    bright := select 1
    reset := select 0 }

/-- The packages that the program is run with. -/
def CommandLine.packages : CommandLine.Packages where
  terminal := .numbered
  validate fields := (Benchmark.Config.ofFields fields).mapError Benchmark.issuesText

end ParserGraph
