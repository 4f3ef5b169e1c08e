/-!
# Floats as exact numbers

What a float stands for, with its value as a product of an integer and a power of two, and the
float nearest to a quotient of naturals.
-/

namespace ParserGraph.Number

/-- The magnitude `mantissa * 2 ^ exponent` of a finite float. -/
structure Binary where
  mantissa : Nat
  exponent : Int
  /-- The next float below lies half as far away as the next float above. -/
  narrowBelow : Bool
deriving DecidableEq, Inhabited

/-- The meaning of a float. -/
inductive Meaning
  | finite (negative : Bool) (magnitude : Binary)
  | infinite (negative : Bool)
  | nan

/-- The meaning of the bits of a float. -/
def meaning (x : Float) : Meaning :=
  let bits := x.toBits
  let negative := bits >>> 63 == 1
  let scale := ((bits >>> 52) &&& 0x7FF).toNat
  let fraction := (bits &&& 0xFFFFFFFFFFFFF).toNat
  if scale = 0x7FF then
    if fraction = 0 then .infinite negative else .nan
  else if scale = 0 then .finite negative ⟨fraction, -1074, false⟩
  else .finite negative ⟨0x10000000000000 + fraction, (scale : Int) - 1075, fraction = 0 ∧ 1 < scale⟩

/-- A power with an integer exponent; a negative exponent counts as zero. A product by
`base ^ e` is a quotient of products by the whole powers for `e` and for `-e`. -/
def wholePower (base : Nat) (exponent : Int) : Nat :=
  Nat.pow base exponent.toNat

/-- The natural numbers whose quotient is `mantissa * 2 ^ exponent`. -/
def Binary.ratio (x : Binary) : Nat × Nat :=
  (x.mantissa * wholePower 2 x.exponent, wholePower 2 (-x.exponent))

/-- The quotient rounded to the nearest natural number, a half to the even one. -/
def divideRounded (num den : Nat) : Nat :=
  let quotient := num / den
  let twice := 2 * (num % den)
  if twice < den then quotient
  else if den < twice then quotient + 1
  else quotient + quotient % 2

/-- The least exponent `e` with `num / den < 2 ^ (53 + e)`. -/
def binaryExponent (num den : Nat) : Int :=
  let e := (num.log2 : Int) - den.log2 - 53
  if num * wholePower 2 (-e) < 0x20000000000000 * den * wholePower 2 e then e else e + 1

/-- The float nearest to a quotient of naturals, ties to even; `none` beyond the largest float. A
carry out of the 53 digits runs into the exponent's bits, where it belongs. -/
def nearest? (negative : Bool) (num den : Nat) : Option Float :=
  let e := if num = 0 then -1074 else max (binaryExponent num den) (-1074)
  let rounded := divideRounded (num * wholePower 2 (-e)) (den * wholePower 2 e)
  let bits := (e + 1074).toNat * 0x10000000000000 + rounded
  if bits < 0x7FF0000000000000 then
    some (Float.ofBits (UInt64.ofNat (bits + if negative then 0x8000000000000000 else 0)))
  else none

/-- The float nearest to an integer, if it is not beyond the largest float. -/
def ofInt? (n : Int) : Option Float :=
  nearest? (n < 0) n.natAbs 1

end ParserGraph.Number
