import ParserGraph.Number.Binary

/-!
# The shortest decimal of a float

A decimal reads back to a float if it lies among the reals that round to the float. Of the
decimals that read back, `Binary.shortest` takes one with the fewest digits, and of those the
nearest. All comparisons are between naturals.
-/

namespace ParserGraph.Number

/-- The decimal `digits * 10 ^ exponent`. -/
structure Decimal where
  digits : Nat
  exponent : Int
deriving DecidableEq, Inhabited

/-- Compares `a * 10 ^ i` with `n * 2 ^ j`. -/
def compareScaled (a : Nat) (i : Int) (n : Nat) (j : Int) : Ordering :=
  compare (a * wholePower 10 i * wholePower 2 (-j)) (n * wholePower 2 j * wholePower 10 (-i))

/-- The decimal lies between the midpoints to the two neighbouring floats; the midpoints
themselves round to the float with the even mantissa. -/
def Binary.readsBack (x : Binary) (d : Decimal) : Bool :=
  let lower := if x.narrowBelow then 4 * x.mantissa - 1 else 4 * x.mantissa - 2
  let upper := 4 * x.mantissa + 2
  let closed := x.mantissa % 2 = 0
  let below := compareScaled d.digits d.exponent lower (x.exponent - 2)
  let above := compareScaled d.digits d.exponent upper (x.exponent - 2)
  (below = .gt ∨ closed ∧ below = .eq) ∧ (above = .lt ∨ closed ∧ above = .eq)

/-- The number of digits before the point: the least `k` with `x < 10 ^ k`. -/
def Binary.scale (x : Binary) : Int :=
  let guess := ((x.mantissa.log2 : Int) + x.exponent) * 30103 / 100000
  let isBelow (k : Int) : Bool := compareScaled 1 k x.mantissa x.exponent = .gt
  if isBelow guess then guess else if isBelow (guess + 1) then guess + 1 else guess + 2

/-- The nearest decimal of `count` digits that reads back, an even last digit at a tie. -/
def Binary.onGrid? (x : Binary) (scale : Int) (count : Nat) : Option Decimal :=
  let grid := scale - count
  let (num, den) := x.ratio
  let num := num * wholePower 10 (-grid)
  let den := den * wholePower 10 grid
  let down : Decimal := ⟨num / den, grid⟩
  let up : Decimal := ⟨num / den + 1, grid⟩
  match x.readsBack down, x.readsBack up with
  | true, true => some (if divideRounded num den = down.digits then down else up)
  | true, false => some down
  | false, true => some up
  | false, false => none

/-- Moves the zeros at the end of the digits into the exponent, at most `fuel` of them. -/
def Decimal.strip : Nat → Decimal → Decimal
  | 0, d => d
  | fuel + 1, d =>
    if d.digits % 10 = 0 then strip fuel ⟨d.digits / 10, d.exponent + 1⟩ else d

/-- The shortest decimal that reads back to a positive float. Seventeen digits always do; the
exact value stands in if none did. -/
def Binary.shortest (x : Binary) : Decimal :=
  let scale := x.scale
  match (List.range 17).findSome? fun n => x.onGrid? scale (n + 1) with
  | some d => d.strip 17
  | none => ⟨x.mantissa * wholePower 2 x.exponent * wholePower 5 (-x.exponent), min x.exponent 0⟩

end ParserGraph.Number
