import ParserGraph.Value.Display
import ParserGraph.Value.Order
import ParserGraph.Number.Reading
import ParserGraph.Template
import ParserGraph.Text.Uppercase

/-!
# Operations on values

What transforms compute: sizes, items, joined texts, integers read from texts, and the arithmetic
that a fold over results needs. An operation fails with `Fault.wrongType` on a value of a kind that
it does not take.
-/

namespace ParserGraph.Value

/-- The values that iteration gives. -/
def iterate (v : Value) : Except Fault (List Value) :=
  Fault.wrongType.orElse v.items?

/-- The number of characters, bytes, items or keys. -/
def length (v : Value) : Except Fault Value :=
  v.iterate.map fun items => .int items.length

/-- The item at an index of a text, of bytes or of a list. -/
def item (index : Nat) : Value → Except Fault Value
  | .dict _ => .error .noSuchKey
  | v => do Fault.noSuchIndex.orElse (← v.iterate)[index]?

/-- The two values that iteration gives, if there are exactly two. -/
def pair (v : Value) : Except Fault (Value × Value) := do
  match ← v.iterate with
  | [a, b] => return (a, b)
  | _ => throw .wrongValue

/-- The first item, followed by the items of the second: a list of at least one. -/
def consFirst (v : Value) : Except Fault Value := do
  let head ← v.item 0
  let tail ← (← v.item 1).iterate
  return .list (head :: tail)

/-- All texts in one. -/
def join (v : Value) : Except Fault Value := do
  let texts ← (← v.iterate).mapM fun
    | .text s => .ok s
    | _ => .error Fault.wrongType
  return .text (String.join texts)

/-- A text in upper case. -/
def uppercase : Value → Except Fault Value
  | .text s => .ok (.text (Text.uppercase s))
  | _ => .error .wrongType

/-- A float without its places. -/
def truncate (x : Float) : Except Fault Int :=
  match Number.meaning x with
  | .finite negative magnitude =>
    let (num, den) := magnitude.ratio
    .ok (Number.signed negative (num / den))
  | .infinite _ => .error .overflow
  | .nan => .error .wrongValue

/-- The integer that a number is or that a text denotes. -/
def toInteger : Value → Except Fault Value
  | .bool b => .ok (.int b.toInt)
  | .int n => .ok (.int n)
  | .float x => (truncate x).map .int
  | .text s => (Fault.wrongValue.orElse (Number.integer? s.toList)).map .int
  | .bytes bs =>
    let cs := bs.map fun b => Char.ofNat b.toNat
    (Fault.wrongValue.orElse
      (if bs.all (· < 0x80) then Number.integer? cs else none)).map .int
  | _ => .error .wrongType

/-- The integer that a value is, without any reading. -/
def integer? : Value → Option Int
  | .bool b => some b.toInt
  | .int n => some n
  | _ => none

/-- A number as a float. -/
def toFloat : Value → Except Fault Float
  | .bool b => .ok (if b then 1.0 else 0.0)
  | .int n => Fault.overflow.orElse (Number.ofInt? n)
  | .float x => .ok x
  | _ => .error .wrongType

/-- Sizes of texts and lists, and the counts of their copies, are smaller than this. -/
def sizeBound : Nat := 0x8000000000000000

/-- The size of so many copies of a row of a size; not one for a negative count. A row that could
have no size is an overflow, or beyond the memory. -/
def copiesSize (beyond : Fault) (n : Int) (size : Nat) : Except Fault Nat := do
  if n < -(sizeBound : Int) ∨ sizeBound ≤ n then throw .overflow
  if sizeBound ≤ size * n.toNat then throw beyond
  return size * n.toNat

/-- So many copies of a row, one after the other. -/
def copies {α : Type} (n : Int) (items : List α) : Except Fault (List α) := do
  Fault.checkSize (← copiesSize .overflow n items.length)
  return if items.isEmpty then [] else (List.replicate n.toNat items).flatten

/-- Copies of a list that have more items than this are beyond the memory. -/
def maxItems : Nat := 0x100000000

/-- A text or bytes, a number of times over. A list is of the wrong type, unless there are too many
of its copies. -/
def replicate (v : Value) (n : Int) : Except Fault Value :=
  match v with
  | .text s => (copies n s.toList).map fun cs => .text (String.ofList cs)
  | .bytes bs => (copies n bs).map .bytes
  | .list items => do
    if maxItems < (← copiesSize .outOfMemory n items.length) then throw .outOfMemory
    throw .wrongType
  | _ => .error .wrongType

/-- Two numbers as floats. -/
def floats (a b : Value) : Except Fault (Float × Float) := do
  if a.quantity?.isNone ∨ b.quantity?.isNone then throw .wrongType
  return (← a.toFloat, ← b.toFloat)

/-- The sum of two numbers, or two texts, rows of bytes or lists one after the other. -/
def add : Value → Value → Except Fault Value
  | .text a, .text b => .ok (.text (a ++ b))
  | .bytes a, .bytes b => .ok (.bytes (a ++ b))
  | .list a, .list b => .ok (.list (a ++ b))
  | a, b =>
    match a.integer?, b.integer? with
    | some m, some n => .ok (.int (m + n))
    | _, _ => (floats a b).map fun (x, y) => .float (x + y)

/-- The product of two numbers, or a text or bytes repeated. -/
def multiply : Value → Value → Except Fault Value
  | .float x, b => (floats (.float x) b).map fun (x, y) => .float (x * y)
  | a, .float y => (floats a (.float y)).map fun (x, y) => .float (x * y)
  | a, b =>
    match a.integer?, b.integer? with
    | some m, some n => .ok (.int (m * n))
    | some m, none => b.replicate m
    | none, some n => a.replicate n
    | none, none => .error .wrongType

/-- The remainder of a float by a positive modulus, never negative. -/
def floatRemainder (x : Float) (modulus : Nat) : Float :=
  match Number.meaning x with
  | .finite negative magnitude =>
    let (num, den) := magnitude.ratio
    let rest := ((Number.nearest? false (num % (modulus * den)) den).getD 0.0)
    if rest == 0.0 then 0.0 else if negative then Float.ofNat modulus - rest else rest
  | _ => Float.ofBits 0x7FF8000000000000

/-- The number in a template of bytes. -/
def fillBytes (n : Nat) (bs : List UInt8) : Except Fault (List UInt8) := do
  let cs ← Template.fill .bytes n (bs.map fun b => Char.ofNat b.toNat)
  return cs.map fun c => UInt8.ofNat c.toNat

/-- The remainder of a number by a positive modulus, never negative. A text and bytes are templates,
which the modulus is put into. -/
def remainder (modulus : Nat) (v : Value) : Except Fault Value :=
  match v, v.integer? with
  | _, some n => .ok (.int (n % modulus))
  | .float x, none => .ok (.float (floatRemainder x modulus))
  | .text s, none => (Template.fill .text modulus s.toList).map fun cs => .text (String.ofList cs)
  | .bytes bs, none => (fillBytes modulus bs).map .bytes
  | _, none => .error .wrongType

/-- Two integers or truth values, bit by bit: a bit is set if it is set in either. The bits of a
negative number are those that its complement does not have. -/
def orBits (m n : Int) : Int :=
  let without (a b : Nat) : Nat := a - Nat.land a b
  match m, n with
  | .ofNat a, .ofNat b => .ofNat (Nat.lor a b)
  | .ofNat a, .negSucc b => .negSucc (without b a)
  | .negSucc a, .ofNat b => .negSucc (without a b)
  | .negSucc a, .negSucc b => .negSucc (Nat.land a b)

/-- The union of two values: of the bits of two numbers, or of the entries of two dictionaries, where
those of the second count. -/
def union : Value → Value → Except Fault Value
  | .bool a, .bool b => .ok (.bool (a || b))
  | .dict a, .dict b => .ok (.dict (b.foldl (fun fields (key, v) => setField fields key v) a))
  | a, b =>
    match a.integer?, b.integer? with
    | some m, some n => .ok (.int (orBits m n))
    | _, _ => .error .wrongType

/-- A start and the second of each of the pairs that follow it, put together from the left and
reduced after every step. -/
def fold (modulus : Nat) (combine : Value → Value → Except Fault Value) (v : Value) :
    Except Fault Value := do
  let (start, rest) ← v.pair
  (← rest.iterate).foldlM (fun acc item => do
    let (_, operand) ← item.pair
    (← combine acc operand).remainder modulus) start

/-- The quotient of two numbers as a float. -/
def divide (a b : Value) : Except Fault Float :=
  match a.integer?, b.integer? with
  | some m, some n =>
    if n = 0 then .error .divisionByZero
    else Fault.overflow.orElse
      (Number.nearest? ((m < 0) != (n < 0)) m.natAbs n.natAbs)
  | _, _ => do
    let (x, y) ← floats a b
    if y == 0.0 then throw .divisionByZero
    return x / y

end ParserGraph.Value
