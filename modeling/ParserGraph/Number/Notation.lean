import ParserGraph.Number.Shortest

/-!
# The text of a float

A float is written with the fewest digits that identify it: positionally with at most sixteen
digits before the point and at most four places of zeros after it, and with an exponent of at
least two digits elsewhere. A whole number keeps one zero after the point.
-/

namespace ParserGraph.Number

/-- The words for the values that have no digits. -/
structure Words where
  infinity : String
  nan : String

/-- The words of displayed values. -/
def displayWords : Words := ⟨"inf", "nan"⟩

/-- The text of a decimal. -/
def Decimal.text (d : Decimal) : String :=
  let digits := toString d.digits
  let count : Int := digits.length
  let point := count + d.exponent
  if -4 < point ∧ point ≤ 16 then
    if point ≤ 0 then
      "0." ++ String.ofList (List.replicate (-point).toNat '0') ++ digits
    else if count ≤ point then
      digits ++ String.ofList (List.replicate d.exponent.toNat '0') ++ ".0"
    else
      let cs := digits.toList
      String.ofList (cs.take point.toNat) ++ "." ++ String.ofList (cs.drop point.toNat)
  else
    let cs := digits.toList
    let exponent := toString (point - 1).natAbs
    let exponent := if exponent.length < 2 then "0" ++ exponent else exponent
    String.ofList (cs.take 1) ++ (if count = 1 then "" else "." ++ String.ofList (cs.drop 1)) ++
      (if point ≤ 0 then "e-" else "e+") ++ exponent

/-- The text of a float. -/
def floatText (words : Words) (x : Float) : String :=
  match meaning x with
  | .nan => words.nan
  | .infinite negative => (if negative then "-" else "") ++ words.infinity
  | .finite negative magnitude =>
    (if negative then "-" else "") ++
      if magnitude.mantissa = 0 then "0.0" else magnitude.shortest.text

end ParserGraph.Number
