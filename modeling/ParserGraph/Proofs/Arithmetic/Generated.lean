import ParserGraph.Generator
import ParserGraph.Proofs.Arithmetic.Parsing

/-!
# Generated expressions

The generator puts a sign between two expressions that it has made, without parentheses around them.
As a product binds tighter than a sum, the text of two expressions with a times sign between them is
not that of a tree with these two below its root; but it is the text of another tree, in which the
last term of the first expression goes on with the first term of the second (`Expression.times`). So
the texts of expressions are closed under both signs and under parentheses, and whatever the
generator makes is one of them (`exists_characters`), from any state that it can be in.
-/

namespace ParserGraph

/-! ## Expressions with a sign between them -/

namespace Arithmetic

/-- The factors of one term, and then those of another. -/
def Term.append : Term → Term → Term
  | .last f, u => .times f u
  | .times f t, u => .times f (t.append u)

/-- The terms of one expression, and then those of another. -/
def Expression.append : Expression → Expression → Expression
  | .last t, e => .plus t e
  | .plus t rest, e => .plus t (rest.append e)

/-- The first term of an expression goes on from another term. -/
def Expression.timesTerm (t : Term) : Expression → Expression
  | .last u => .last (t.append u)
  | .plus u rest => .plus (t.append u) rest

/-- The last term of one expression goes on with the first term of another. -/
def Expression.times : Expression → Expression → Expression
  | .last t, e => e.timesTerm t
  | .plus t rest, e => .plus t (rest.times e)

theorem Term.text_append (t u : Term) : (t.append u).text = t.text ++ '*' :: u.text := by
  match t with
  | .last f => rfl
  | .times f t => simp [Term.append, Term.text, Term.text_append t u]

theorem Expression.text_append (e e' : Expression) :
    (e.append e').text = e.text ++ '+' :: e'.text := by
  match e with
  | .last t => rfl
  | .plus t rest => simp [Expression.append, Expression.text, Expression.text_append rest e']

theorem Expression.text_timesTerm (t : Term) (e : Expression) :
    (e.timesTerm t).text = t.text ++ '*' :: e.text := by
  cases e with
  | last u => exact t.text_append u
  | plus u rest => simp [Expression.timesTerm, Expression.text, Term.text_append]

theorem Expression.text_times (e e' : Expression) :
    (e.times e').text = e.text ++ '*' :: e'.text := by
  match e with
  | .last t => exact text_timesTerm t e'
  | .plus t rest => simp [Expression.times, Expression.text, Expression.text_times rest e']

/-- An expression of one factor. -/
def Factor.expression (f : Factor) : Expression :=
  .last (.last f)

theorem Factor.text_expression (f : Factor) : f.expression.text = f.text :=
  rfl

end Arithmetic

/-! ## What the generator makes -/

namespace Generator

open Arithmetic

theorem exists_digit (n : Int) : ∃ d : Fin 10, digitChar d = digit n ∧ (d : Int) = n % 10 := by
  have hchar : ∀ d : Fin 10, digitChar d = Nat.digitChar d := by decide
  have hlt : (n % 10).toNat < 10 := by omega
  exact ⟨⟨_, hlt⟩, hchar _, Int.toNat_of_nonneg (by omega)⟩

/-- Whatever is generated is the text of an expression. -/
theorem exists_characters (depth : Nat) (g : Generator) :
    ∃ e : Expression, e.text = (characters depth g).1 := by
  induction depth generalizing g with
  | zero =>
    obtain ⟨d, hd, -⟩ := exists_digit g.next.1
    exact ⟨(Factor.digit d).expression, congrArg ([·]) hd⟩
  | succ depth ih =>
    obtain ⟨left, hleft⟩ := ih g.next.2
    obtain ⟨right, hright⟩ := ih (characters depth g.next.2).2
    simp only [characters]
    split
    · refine ⟨(Factor.parens left).expression, ?_⟩
      rw [Factor.text_expression, Factor.text, hleft, List.cons_append]
    · split
      · exact ⟨left.append right, by rw [Expression.text_append, hleft, hright]⟩
      · exact ⟨left.times right, by rw [Expression.text_times, hleft, hright]⟩

/-- What a generator can be asked for. -/
inductive Call
  | next
  | expression (depth : Int)

/-- The generator after a call. -/
def Call.after (g : Generator) : Call → Generator
  | .next => g.next.2
  | .expression depth => (g.expression depth).2

/-- From any integer as its seed, and after any calls, a generator makes only texts of expressions,
and the arithmetic grammar gives the remainders of their values. -/
theorem parse_generated :
    ∃ l, GrammarKind.arithmetic.language = .ok l ∧
      ∀ (seed : Int) (calls : List Call) (depth : Int), ∃ (g : Generator) (e : Expression),
        Generator.ofValue (.int seed) = .ok g ∧
          e.text = ((calls.foldl Call.after g).expression depth).1.toList ∧
          e.value % 0xFFFF ≤ 0xFFFE ∧
          l.parse (.ofValue (.text ((calls.foldl Call.after g).expression depth).1)) =
            .ok (.int (e.value % 0xFFFF : Nat)) := by
  obtain ⟨log, hl⟩ := language_eq
  refine ⟨_, hl, fun seed calls depth => ?_⟩
  obtain ⟨e, he⟩ := exists_characters depth.toNat (calls.foldl Call.after ⟨seed⟩)
  have htext : e.text = ((calls.foldl Call.after ⟨seed⟩).expression depth).1.toList := by
    rw [he, expression, String.toList_ofList]
  exact ⟨⟨seed⟩, e, rfl, htext, by omega, parse_text log htext⟩

end Generator

end ParserGraph
