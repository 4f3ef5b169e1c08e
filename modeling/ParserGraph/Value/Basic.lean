/-!
# Values

The elements that parsers read, the results that they give and the bounds of their ranges are all
values: inputs of any kind can be parsed, so one dynamic type serves them all. `Value.failure` is
the marker of a parser that did not match; as an element of an input it never matches.
-/

namespace ParserGraph

/-- A value. A dictionary keeps its keys, which are distinct, in the order of their insertion. -/
inductive Value
  | null
  | bool (b : Bool)
  | int (n : Int)
  | float (x : Float)
  | text (s : String)
  | bytes (bs : List UInt8)
  | list (items : List Value)
  | dict (fields : List (String × Value))
  | failure
deriving Inhabited

namespace Value

/-- The text of one character. -/
def character (c : Char) : Value :=
  .text (String.singleton c)

/-- A byte is read as a number. -/
def ofByte (b : UInt8) : Value :=
  .int b.toNat

def isFailure : Value → Bool
  | .failure => true
  | _ => false

/-- Sets a key of a dictionary: a new key goes to the end, a present one keeps its place. -/
def setField (fields : List (String × Value)) (key : String) (v : Value) :
    List (String × Value) :=
  if fields.any (·.1 == key) then
    fields.map fun (k, old) => if k == key then (k, v) else (k, old)
  else fields ++ [(key, v)]

/-- The dictionary with the given entries; of two entries with one key the later counts. -/
def ofEntries (entries : List (String × Value)) : Value :=
  .dict (entries.foldl (fun fields (key, v) => setField fields key v) [])

/-- The values that iteration over a value gives: the characters of a text, the bytes, the items
of a list, the keys of a dictionary. -/
def items? : Value → Option (List Value)
  | .text s => some (s.toList.map character)
  | .bytes bs => some (bs.map ofByte)
  | .list items => some items
  | .dict fields => some (fields.map fun (key, _) => .text key)
  | _ => none

/-- Lists and dictionaries cannot be told apart by a hash, so they are no keys. -/
def isHashable : Value → Bool
  | .list _ | .dict _ => false
  | _ => true

end Value

end ParserGraph
