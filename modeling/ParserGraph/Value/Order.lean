import ParserGraph.Fault
import ParserGraph.Number.Binary

/-!
# Equality and order of values

Numbers of all kinds are compared by their exact values, texts by their code points, bytes and
lists item by item. Values of unlike kinds are different, and no order is defined between them;
the order of two lists asks only for the order of the first two items that differ.
-/

namespace ParserGraph

/-- An exact number `numerator * 2 ^ exponent`, an infinity, or no number. -/
inductive Quantity
  | exact (numerator exponent : Int)
  | infinite (negative : Bool)
  | nan

namespace Quantity

def compare? : Quantity → Quantity → Option Ordering
  | .nan, _ | _, .nan => none
  | .infinite a, .infinite b => some (compare b a)
  | .infinite negative, .exact .. => some (if negative then .lt else .gt)
  | .exact .., .infinite negative => some (if negative then .gt else .lt)
  | .exact m i, .exact n j =>
    some (compare (m * Number.wholePower 2 (i - j)) (n * Number.wholePower 2 (j - i)))

end Quantity

namespace Value

/-- The number that a value is; the truth values are 0 and 1. -/
def quantity? : Value → Option Quantity
  | .bool b => some (.exact b.toInt 0)
  | .int n => some (.exact n 0)
  | .float x =>
    match Number.meaning x with
    | .finite negative magnitude =>
      let m : Int := magnitude.mantissa
      some (.exact (if negative then -m else m) magnitude.exponent)
    | .infinite negative => some (.infinite negative)
    | .nan => some .nan
  | _ => none

mutual

/-- Equality of values: `1`, `true` and `1.0` are equal, no number equals itself not. -/
def equal : Value → Value → Bool
  | .null, .null => true
  | .failure, .failure => true
  | .text a, .text b => a == b
  | .bytes a, .bytes b => a == b
  | .list a, .list b => equalItems a b
  | .dict a, .dict b => a.length == b.length && equalFields a b
  | a, b =>
    match a.quantity?, b.quantity? with
    | some x, some y => x.compare? y == some .eq
    | _, _ => false

def equalItems : List Value → List Value → Bool
  | [], [] => true
  | a :: as, b :: bs => equal a b && equalItems as bs
  | _, _ => false

/-- Each entry is one of the others, wherever it stands. -/
def equalFields : List (String × Value) → List (String × Value) → Bool
  | [], _ => true
  | (key, a) :: fields, others =>
    (match others.lookup key with
      | some b => equal a b
      | none => false) && equalFields fields others

end

/-- Whether a row of numbers comes before another, by the first two that differ. -/
def numbersPrecede (strict : Bool) : List Nat → List Nat → Bool
  | [], [] => !strict
  | [], _ :: _ => true
  | _ :: _, [] => false
  | a :: as, b :: bs => if a = b then numbersPrecede strict as bs else decide (a < b)

mutual

/-- Whether a value comes before another: with `strict`, equal values do not. -/
def precedes (strict : Bool) : Value → Value → Except Fault Bool
  | .text a, .text b =>
    .ok (numbersPrecede strict (a.toList.map Char.toNat) (b.toList.map Char.toNat))
  | .bytes a, .bytes b => .ok (numbersPrecede strict (a.map UInt8.toNat) (b.map UInt8.toNat))
  | .list a, .list b => itemsPrecede strict a b
  | a, b =>
    match a.quantity?, b.quantity? with
    | some x, some y =>
      .ok (match x.compare? y with
        | some .lt => true
        | some .eq => !strict
        | _ => false)
    | _, _ => .error .wrongType

def itemsPrecede (strict : Bool) : List Value → List Value → Except Fault Bool
  | [], [] => .ok !strict
  | [], _ :: _ => .ok true
  | _ :: _, [] => .ok false
  | a :: as, b :: bs =>
    if equal a b then itemsPrecede strict as bs else precedes strict a b

end

/-- Whether values of its kind have an order. -/
def hasOrder : Value → Bool
  | .null | .dict _ | .failure => false
  | _ => true

/-- Whether an element lies in a closed range; the upper bound is looked at only if the lower one
holds. -/
def between (lower upper element : Value) : Except Fault Bool :=
  match precedes false lower element with
  | .ok true => precedes false element upper
  | other => other

end Value

end ParserGraph
