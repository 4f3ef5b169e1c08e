import ParserGraph.Value.Operations

/-!
# Contents and cursors

A content is what parsers read: the characters of a text, bytes, or the items of a list, found by
their position. A cursor is a position in a content. Positions are integers: one that was set to a
negative number counts from the end.
-/

namespace ParserGraph

/-- The elements of a value, as far as it has any. -/
inductive Content
  | indexed (elements : Array Value)
  /-- A dictionary has a size, but no element at a position. -/
  | keyed (size : Nat)
  /-- A value without a size cannot be read at all. -/
  | unsized

namespace Content

/-- The elements that a value offers to parsers. -/
def ofValue : Value → Content
  | .text s => .indexed (s.toList.map Value.character).toArray
  | .bytes bs => .indexed (bs.map Value.ofByte).toArray
  | .list items => .indexed items.toArray
  | .dict fields => .keyed fields.length
  | _ => .unsized

def size? : Content → Option Nat
  | .indexed elements => some elements.size
  | .keyed size => some size
  | .unsized => none

/-- How many elements there are from a position on. -/
def remaining (content : Content) (position : Int) : Nat :=
  (content.size?.getD 0 - position).toNat

/-- The element at a position; `none` at the end and beyond it. -/
def read : Content → Int → Except Fault (Option Value)
  | .indexed elements, position =>
    if elements.size ≤ position then .ok none
    else if 0 ≤ position then .ok elements[position.toNat]?
    else if -elements.size ≤ position then .ok elements[(elements.size + position).toNat]?
    else .error .noSuchIndex
  | .keyed size, position => if size ≤ position then .ok none else .error .noSuchKey
  | .unsized, _ => .error .wrongType

/-- Whether a position is the end. -/
def atEnd (content : Content) (position : Int) : Except Fault Bool :=
  Fault.wrongType.orElse (content.size?.map fun size => decide (position = size))

end Content

/-- A reading position over a value. -/
structure Cursor where
  source : Value
  position : Int := 0

namespace Cursor

def content (c : Cursor) : Content :=
  .ofValue c.source

/-- Reads one element and moves past it; at the end the result is the failure marker. -/
def read (c : Cursor) : Except Fault (Value × Cursor) := do
  match ← c.content.read c.position with
  | some v => return (v, { c with position := c.position + 1 })
  | none => return (.failure, c)

def atEnd (c : Cursor) : Except Fault Bool :=
  c.content.atEnd c.position

/-- The position as an index into the elements, within their bounds. -/
def start (c : Cursor) (size : Nat) : Nat :=
  if c.position < 0 then (size + c.position).toNat else min c.position.toNat size

/-- The part of the source that is not read yet, of the same kind as the source. -/
def remaining (c : Cursor) : Except Fault Value :=
  match c.source with
  | .text s =>
    let cs := s.toList
    .ok (.text (String.ofList (cs.drop (c.start cs.length))))
  | .bytes bs => .ok (.bytes (bs.drop (c.start bs.length)))
  | .list items => .ok (.list (items.drop (c.start items.length)))
  | _ => .error .wrongType

/-- The text of a cursor, which has none if its source has no size. -/
def display (c : Cursor) : Except Fault String := do
  let size ← Fault.wrongType.orElse c.content.size?
  return s!"Cursor(position={toString c.position}, length={toString size})"

end Cursor

end ParserGraph
