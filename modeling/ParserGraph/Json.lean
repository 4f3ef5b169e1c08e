import ParserGraph.Value.Display

/-!
# Values as JSON texts

The text of a value in JSON, in ASCII characters only: all others are written as escapes of their
UTF-16 units. Values that JSON does not know are written as they are spelled elsewhere. Integers are
written however long they are.
-/

namespace ParserGraph.Json

/-- The escape of one UTF-16 unit. -/
def unitEscape (unit : Nat) : List Char :=
  '\\' :: 'u' :: Text.hex 4 unit

/-- The escapes that have a letter of their own. -/
def shortEscape? (c : Char) : Option Char :=
  if c = '"' then some '"'
  else if c = '\\' then some '\\'
  else if c = '\n' then some 'n'
  else if c = '\r' then some 'r'
  else if c = '\t' then some 't'
  else if c = Char.ofNat 0x8 then some 'b'
  else if c = Char.ofNat 0xC then some 'f'
  else none

/-- A character inside a string. A code point beyond the first 65536 is written as two units. -/
def escape (c : Char) : List Char :=
  match shortEscape? c with
  | some letter => ['\\', letter]
  | none =>
    let n := c.toNat
    if 0x20 ≤ n ∧ n < 0x7F then [c]
    else if n < 0x10000 then unitEscape n
    else
      let offset := n - 0x10000
      unitEscape (0xD800 + offset / 0x400) ++ unitEscape (0xDC00 + offset % 0x400)

/-- A text between quotation marks. -/
def string (s : String) : List Char :=
  '"' :: s.toList.flatMap escape ++ ['"']

/-- The words of numbers that are not finite. -/
def numberWords : Number.Words := ⟨"Infinity", "NaN"⟩

mutual

/-- The characters of a value. -/
def characters : Value → List Char
  | .null => "null".toList
  | .bool true => "true".toList
  | .bool false => "false".toList
  | .int n => (toString n).toList
  | .float x => (Number.floatText numberWords x).toList
  | .text s => string s
  | .list [] => "[]".toList
  | .list (v :: items) => '[' :: characters v ++ moreItems items
  | .dict [] => "\x7b\x7d".toList
  | .dict ((key, v) :: fields) =>
    Char.ofNat 0x7B :: string key ++ ": ".toList ++ characters v ++ moreFields fields
  | .bytes bs => string (Value.spelling (.bytes bs))
  | .failure => string (Value.spelling .failure)

/-- The items after the first, and the end of the list. -/
def moreItems : List Value → List Char
  | [] => [']']
  | v :: items => ", ".toList ++ characters v ++ moreItems items

/-- The entries after the first, and the end of the dictionary. -/
def moreFields : List (String × Value) → List Char
  | [] => [Char.ofNat 0x7D]
  | (key, v) :: fields =>
    ", ".toList ++ string key ++ ": ".toList ++ characters v ++ moreFields fields

end

/-- The JSON text of a value. -/
def text (v : Value) : String :=
  String.ofList (characters v)

end ParserGraph.Json
