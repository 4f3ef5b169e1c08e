import ParserGraph.Fault
import ParserGraph.Number.Notation
import ParserGraph.Number.Reading
import ParserGraph.Text.Quoted

/-!
# The text of a value

How values are shown in messages, dumps and reports. An integer with more digits than can be read
cannot be written either, nor can a value with such an integer inside.
-/

namespace ParserGraph.Value

mutual

/-- A value as it is written down, however long its integers are: texts are quoted. -/
def spelling : Value → String
  | .null => "None"
  | .bool true => "True"
  | .bool false => "False"
  | .int n => toString n
  | .float x => Number.floatText Number.displayWords x
  | .text s => Text.quoted s
  | .bytes bs => Text.quotedBytes bs
  | .list items => "[" ++ ", ".intercalate (spellItems items) ++ "]"
  | .dict fields => "\x7b" ++ ", ".intercalate (spellFields fields) ++ "\x7d"
  | .failure => "FAILURE"

def spellItems : List Value → List String
  | [] => []
  | v :: items => spelling v :: spellItems items

def spellFields : List (String × Value) → List String
  | [] => []
  | (key, v) :: fields => (Text.quoted key ++ ": " ++ spelling v) :: spellFields fields

end

mutual

/-- No integer in a value has more than `Number.maxDigits` digits. -/
def isWritable : Value → Bool
  | .int n => (Nat.toDigits 10 n.natAbs).length ≤ Number.maxDigits
  | .list items => areWritable items
  | .dict fields => fieldsAreWritable fields
  | _ => true

def areWritable : List Value → Bool
  | [] => true
  | v :: items => isWritable v && areWritable items

def fieldsAreWritable : List (String × Value) → Bool
  | [] => true
  | (_, v) :: fields => isWritable v && fieldsAreWritable fields

end

/-- A value as it is written down, if it can be. -/
def display (v : Value) : Except Fault String :=
  if v.isWritable then .ok v.spelling else .error .wrongValue

/-- A value as part of a sentence: a text stands for itself. -/
def words : Value → Except Fault String
  | .text s => .ok s
  | v => v.display

end ParserGraph.Value
