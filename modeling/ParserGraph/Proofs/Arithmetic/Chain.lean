import ParserGraph.Grammar.Arithmetic
import ParserGraph.Proofs.Evaluation.Positional

/-!
# Chains of operands

Sums and products are read by nodes of one layout, a `Chain`: an operand, and any number of further
ones after an operator, folded into one value. What is read is reduced after every step; as the
operation can be carried out on remainders, the result is the remainder of what an ordinary
calculation gives (`Chain.reads`).
-/

namespace ParserGraph.Arithmetic

open ParserGraph.Graph (Reads ReadsInOrder ReadsRounds)

/-- An operation on numbers that can be carried out on remainders. -/
structure Operation where
  op : Nat → Nat → Nat
  combine : Value → Value → Except Fault Value
  assoc (l m n : Nat) : op (op l m) n = op l (op m n)
  op_mod (m n : Nat) : op m (n % modulus) % modulus = op m n % modulus
  mod_op (m n : Nat) : op (m % modulus) n % modulus = op m n % modulus
  combine_int (m n : Nat) : combine (.int m) (.int n) = .ok (.int (op m n : Nat))

namespace Operation

def sum : Operation where
  op := (· + ·)
  combine := Value.add
  assoc := Nat.add_assoc
  op_mod m n := Nat.add_mod_mod m n modulus
  mod_op m n := Nat.mod_add_mod m modulus n
  combine_int m n := by simp [Value.add, Value.integer?]

def product : Operation where
  op := (· * ·)
  combine := Value.multiply
  assoc := Nat.mul_assoc
  op_mod m n := Nat.mul_mod_mod m n modulus
  mod_op m n := Nat.mod_mul_mod m n modulus
  combine_int m n := by simp [Value.multiply, Value.integer?]

variable (a : Operation)

theorem foldl_mod (m : Nat) (ns : List Nat) :
    ns.foldl (fun m n => a.op m n % modulus) (m % modulus) = ns.foldl a.op m % modulus := by
  induction ns generalizing m with
  | nil => rfl
  | cons n ns ih => rw [List.foldl_cons, a.mod_op, ih, List.foldl_cons]

theorem foldl_op (l m : Nat) (ns : List Nat) :
    ns.foldl a.op (a.op l m) = a.op l (ns.foldl a.op m) := by
  induction ns generalizing m with
  | nil => rfl
  | cons n ns ih => rw [List.foldl_cons, a.assoc, ih, List.foldl_cons]

theorem foldl_mod_left (m : Nat) (ns : List Nat) :
    ns.foldl a.op (m % modulus) % modulus = ns.foldl a.op m % modulus := by
  rw [← foldl_mod, Nat.mod_mod, foldl_mod]

end Operation

/-- The results of the operands that follow the first one, each with its operator. -/
def pairs (sign : Char) (ns : List Nat) : List Value :=
  ns.map fun (n : Nat) => .list [.character sign, .int n]

theorem Operation.fold_pairs (a : Operation) (sign : Char) (m : Nat) (ns : List Nat) :
    Value.fold modulus a.combine (.list [.int (m % modulus : Nat), .list (pairs sign ns)]) =
      .ok (.int (ns.foldl a.op m % modulus : Nat)) := by
  have key (m : Nat) : (pairs sign ns).foldlM (fun acc item => do
      let parts ← item.pair
      (← a.combine acc parts.2).remainder modulus) (.int m) =
        .ok (.int (ns.foldl (fun m n => a.op m n % modulus) m : Nat)) := by
    induction ns generalizing m with
    | nil => rfl
    | cons n ns ih =>
      have hstep : (a.combine (.int m) (.int n) >>= fun v => v.remainder modulus) =
          .ok (.int (a.op m n % modulus : Nat)) := by
        rw [a.combine_int]
        simp [Bind.bind, Except.bind, Value.remainder, Value.integer?]
      rw [pairs, List.map_cons, List.foldlM_cons, ← pairs, List.foldl_cons, ← ih]
      change (a.combine (.int m) (.int n) >>= fun v => v.remainder modulus) >>= _ = _
      rw [hstep]
      rfl
  rw [← a.foldl_mod, ← key]
  rfl

/-- Nodes that read operands with operators between them, and fold their results. -/
structure Chain (g : Graph) where
  whole : Object
  parts : Object
  more : Object
  step : Object
  operand : Object
  operator : Object
  sign : Char
  fold : Transform
  operation : Operation
  whole_eq : g.parser? whole = some (.map parts fold)
  parts_eq : g.parser? parts = some (.sequence [operand, more])
  more_eq : g.parser? more = some (.repetition step)
  step_eq : g.parser? step = some (.sequence [operator, operand])
  operator_eq : g.parser? operator = some (.literal (.character sign) (.character sign))
  fold_eq : fold.compute = Value.fold modulus operation.combine

namespace Chain

variable {g : Graph} (c : Chain g) {content : Content} {i j k : Int}

/-- No further operand follows. -/
def Stops (content : Content) (i : Int) : Prop :=
  g.ReadsRounds content c.step i (.ok [] i)

variable {c}

theorem stops_of_operator (h : g.Reads content c.operator i .fail) : c.Stops content i := by
  have hstep : g.Reads content c.step i (Verdict.fail.map .list) := .sequence c.step_eq (.fail h)
  exact .last hstep

/-- An operator that no operand follows is not read. -/
theorem stops_of_operand {v : Value} (h : g.Reads content c.operator i (.ok v j))
    (hj : g.Reads content c.operand j .fail) : c.Stops content i := by
  have hstep : g.Reads content c.step i ((Verdict.fail.map (v :: ·)).map .list) :=
    .sequence c.step_eq (.cons h (.fail hj))
  exact .last hstep

theorem reads_fail (h : g.Reads content c.operand i .fail) : g.Reads content c.whole i .fail := by
  have hparts : g.Reads content c.parts i (Verdict.fail.map .list) := .sequence c.parts_eq (.fail h)
  exact .mapFail c.whole_eq hparts

variable (c)

/-- The first operand and those that follow it are read, and what they give, folded without any
reduction, is the number up to its remainder. -/
def ReadsParts (content : Content) (i k : Int) (n : Nat) : Prop :=
  ∃ m ns j, i < j ∧ g.Reads content c.operand i (.ok (.int (m % modulus : Nat)) j) ∧
    g.ReadsRounds content c.step j (.ok (pairs c.sign ns) k) ∧
    ns.foldl c.operation.op m % modulus = n % modulus

variable {c}

theorem readsParts_last {n : Nat} (hi : i < k)
    (h : g.Reads content c.operand i (.ok (.int (n % modulus : Nat)) k))
    (hk : c.Stops content k) : c.ReadsParts content i k n :=
  ⟨n, [], k, hi, h, hk, rfl⟩

theorem readsParts_more {j' : Int} {m n : Nat} (hi : i < j)
    (h : g.Reads content c.operand i (.ok (.int (m % modulus : Nat)) j)) (hlt : j < j')
    (hj : g.Reads content c.operator j (.ok (.character c.sign) j'))
    (hr : c.ReadsParts content j' k n) : c.ReadsParts content i k (c.operation.op m n) := by
  obtain ⟨m', ns, l, hl, hm', hns, hn⟩ := hr
  have hstep : g.Reads content c.step j
      (.ok (.list [.character c.sign, .int (m' % modulus : Nat)]) l) :=
    .sequence c.step_eq (.cons hj (.cons hm' .nil))
  refine ⟨m, m' % modulus :: ns, j, hi, h, .more hstep (by omega) hns, ?_⟩
  rw [List.foldl_cons, Operation.foldl_op, ← c.operation.op_mod, Operation.foldl_mod_left, hn,
    c.operation.op_mod]

theorem reads {n : Nat} (h : c.ReadsParts content i k n) :
    g.Reads content c.whole i (.ok (.int (n % modulus : Nat)) k) := by
  obtain ⟨m, ns, j, -, hm, hns, hn⟩ := h
  have hmore : g.Reads content c.more j (.ok (.list (pairs c.sign ns)) k) :=
    .repetition c.more_eq hns
  have hparts : g.Reads content c.parts i
      (.ok (.list [.int (m % modulus : Nat), .list (pairs c.sign ns)]) k) :=
    .sequence c.parts_eq (.cons hm (.cons hmore .nil))
  have hfold : c.fold.apply (.list [.int (m % modulus : Nat), .list (pairs c.sign ns)]) =
      .ok (.int (n % modulus : Nat)) :=
    Transform.apply_of_compute (by rw [c.fold_eq, Operation.fold_pairs, hn])
  have hwhole := Reads.map c.whole_eq hparts
  rw [hfold] at hwhole
  exact hwhole

end Chain

end ParserGraph.Arithmetic
