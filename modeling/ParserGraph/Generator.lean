import ParserGraph.Value.Operations

/-!
# Random expressions

A generator of arithmetic expressions. Its random numbers are a fixed sequence of residues, so that
the same seed always gives the same expressions. Every branch of an expression goes down to the
same depth before it ends in a digit.
-/

namespace ParserGraph

/-- A generator, which is known by its last random number; at the start, by its seed. -/
structure Generator where
  state : Int
deriving DecidableEq

namespace Generator

/-- The generator with a seed. -/
def ofValue (seed : Value) : Except Fault Generator :=
  Fault.wrongType.orElse (seed.integer?.map .mk)

/-- Random numbers are residues by this number: twelve bits are kept. -/
def modulus : Int := 0x1000

/-- The next random number. -/
def next (g : Generator) : Int × Generator :=
  let value := (g.state * 0xDEAD + 0xC0DE) % modulus
  (value, ⟨value⟩)

/-- The digit that a random number stands for. -/
def digit (n : Int) : Char :=
  Nat.digitChar (n % 10).toNat

/-- A random expression of a depth: a digit, or a sum, a product or a pair of parentheses around
expressions of the depth below. Left operands come first. -/
def characters : Nat → Generator → List Char × Generator
  | 0, g =>
    let (n, g) := g.next
    ([digit n], g)
  | depth + 1, g =>
    let (n, g) := g.next
    if n % 3 = 2 then
      let (inner, g) := characters depth g
      ('(' :: inner ++ [')'], g)
    else
      let (left, g) := characters depth g
      let (right, g) := characters depth g
      (left ++ (if n % 3 = 0 then '+' else '*') :: right, g)

/-- The text of a random expression; a negative depth counts as zero. -/
def expression (depth : Int) (g : Generator) : String × Generator :=
  let (cs, g) := characters depth.toNat g
  (String.ofList cs, g)

end Generator

end ParserGraph
