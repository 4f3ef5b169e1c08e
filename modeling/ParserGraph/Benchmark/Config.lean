/-!
# Options of a benchmark

The defaults are those of the reference run, whose expression and value are known beforehand.
-/

namespace ParserGraph.Benchmark

/-- The options of a benchmark. -/
structure Config where
  /-- The depth of the generated expression. -/
  depth : Nat := 20
  /-- The least time to measure for. -/
  seconds : Float := 10.0
  /-- The number of parses before the measurement. -/
  warmup : Nat := 3
  /-- The seed of the generator. -/
  seed : Int := 0xCAFE
  /-- Whether the expression and its value are checked before the measurement. -/
  check : Bool := true
  /-- Whether the parser is profiled during the measurement. -/
  profile : Bool := false

/-- The run whose expected results are known. -/
def Config.isReference (c : Config) : Bool :=
  c.depth = 20 && c.seed = 0xCAFE

end ParserGraph.Benchmark
