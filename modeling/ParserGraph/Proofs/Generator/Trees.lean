import Mathlib.Algebra.Group.Nat.Even
import ParserGraph.Proofs.Arithmetic.Generated
import ParserGraph.Proofs.Arithmetic.Parentheses

/-!
# The shape of generated expressions

Whatever the generator makes is the text of a tree all of whose leaves are equally deep
(`characters_eq`). The tree is the generator's own and not the one that a parser finds: a sum below a
product has no parentheses around it.

There is one random number for each node of the tree, and one character of the text, besides the
closing ones of parentheses (`Tree.length_text`). So a text alone says where the generator is after
it (`expression_eq_text`). A text of a depth is shortest if every inner node is a pair of
parentheses, and longest if none is (`Tree.lt_length_text`, `Tree.length_text_lt`).
-/

namespace ParserGraph.Generator

open Arithmetic

/-! ## Trees with leaves of one depth -/

/-- What stands between two expressions. -/
inductive Sign
  | plus
  | times

def Sign.char : Sign → Char
  | .plus => '+'
  | .times => '*'

/-- Trees with the given number of inner nodes, the root among them, on the way to each of their
leaves. -/
inductive Tree : Nat → Type
  | digit (d : Fin 10) : Tree 0
  | parens {depth : Nat} (inner : Tree depth) : Tree (depth + 1)
  | binary {depth : Nat} (sign : Sign) (left right : Tree depth) : Tree (depth + 1)

namespace Tree

variable {depth : Nat}

/-- The text of a tree. Only a node of parentheses puts parentheses around what is below it. -/
def text : {depth : Nat} → Tree depth → List Char
  | _, digit d => [digitChar d]
  | _, parens inner => '(' :: (inner.text ++ [')'])
  | _, binary sign left right => left.text ++ sign.char :: right.text

/-- The number of nodes, the leaves among them. -/
def size : {depth : Nat} → Tree depth → Nat
  | _, digit _ => 1
  | _, parens inner => inner.size + 1
  | _, binary _ left right => left.size + right.size + 1

theorem length_text_parens (inner : Tree depth) :
    inner.parens.text.length = inner.text.length + 2 := by
  simp [text]

theorem length_text_binary (sign : Sign) (left right : Tree depth) :
    (binary sign left right).text.length = left.text.length + right.text.length + 1 := by
  simp [text, Nat.add_assoc]

theorem odd_length_text (t : Tree depth) : Odd t.text.length := by
  induction t with
  | digit d => exact odd_one
  | parens inner ih =>
    rw [length_text_parens]
    exact ih.add_even even_two
  | binary sign left right ihl ihr =>
    rw [length_text_binary]
    exact (ihl.add_odd ihr).add_one

theorem lt_length_text (t : Tree depth) : 2 * depth < t.text.length := by
  induction t with
  | digit d => exact Nat.one_pos
  | parens inner ih =>
    rw [length_text_parens]
    omega
  | binary sign left right ihl ihr =>
    rw [length_text_binary]
    omega

theorem length_text_lt (t : Tree depth) : t.text.length < 2 ^ (depth + 1) := by
  induction t with
  | digit d => exact Nat.one_lt_two
  | @parens depth inner ih =>
    -- At least one leaf is below the parentheses, so there is room for a second one.
    have hpos : 0 < 2 ^ depth := Nat.two_pow_pos depth
    rw [length_text_parens]
    omega
  | binary sign left right ihl ihr =>
    rw [length_text_binary]
    omega

/-- Every node is one character, and one of parentheses another one. -/
theorem length_text (t : Tree depth) : t.text.length = t.size + t.text.count '(' := by
  induction t with
  | digit d => simp [text, size, digitChar_ne d]
  | parens inner ih =>
    have hcount : inner.parens.text.count '(' = inner.text.count '(' + 1 := by simp [text]
    rw [length_text_parens, hcount, size]
    omega
  | binary sign left right ihl ihr =>
    have hsign : sign.char ≠ '(' := by cases sign <;> decide
    have hcount : (binary sign left right).text.count '(' =
        left.text.count '(' + right.text.count '(' := by
      rw [text, List.count_append, List.count_cons_of_ne hsign]
    rw [length_text_binary, hcount, size]
    omega

theorem balance_text (t : Tree depth) : balance t.text = 0 := by
  induction t with
  | digit d =>
    revert d
    decide
  | parens inner ih =>
    rw [text, ← List.singleton_append, balance_append, balance_append, ih]
    rfl
  | binary sign left right ihl ihr =>
    rw [text, ← List.singleton_append, balance_append, balance_append, ihl, ihr]
    cases sign <;> rfl

theorem nesting_text_le (t : Tree depth) : nesting t.text ≤ depth := by
  induction t with
  | digit d =>
    revert d
    decide
  | parens inner ih =>
    have hopening : nesting ['('] = 1 ∧ balance ['('] = 1 := by decide
    have hclosing : nesting [')'] = 0 := by decide
    have hall := nesting_append_le ['('] (inner.text ++ [')'])
    have hrest := nesting_append_le inner.text [')']
    rw [inner.balance_text] at hrest
    rw [text, ← List.singleton_append]
    omega
  | binary sign left right ihl ihr =>
    -- Nothing of the left operand is open any more when the right one begins.
    have hsign : nesting [sign.char] = 0 ∧ balance [sign.char] = 0 := by cases sign <;> decide
    have hall := nesting_append_le left.text (sign.char :: right.text)
    have hrest := nesting_append_le [sign.char] right.text
    rw [left.balance_text, ← List.singleton_append] at hall
    rw [text, ← List.singleton_append]
    omega

end Tree

/-! ## What is generated, and where the generator is then -/

/-- The generator after a number of random numbers. -/
def skip (n : Nat) (g : Generator) : Generator :=
  (fun g => g.next.2)^[n] g

theorem skip_add (m n : Nat) (g : Generator) : skip (m + n) g = skip n (skip m g) := by
  rw [Nat.add_comm]
  exact Function.iterate_add_apply _ n m g

/-- Whatever is generated is the text of a tree, with a random number for each of its nodes. -/
theorem characters_eq (depth : Nat) (g : Generator) :
    ∃ t : Tree depth, characters depth g = (t.text, skip t.size g) := by
  induction depth generalizing g with
  | zero =>
    obtain ⟨d, hd, -⟩ := exists_digit g.next.1
    exact ⟨.digit d, by rw [characters, Tree.text, hd]; rfl⟩
  | succ depth ih =>
    obtain ⟨left, hleft⟩ := ih g.next.2
    obtain ⟨right, hright⟩ := ih (skip (left.size + 1) g)
    have hleft : characters depth g.next.2 = (left.text, skip (left.size + 1) g) := hleft
    simp only [characters, hleft]
    split
    · exact ⟨.parens left, rfl⟩
    · obtain ⟨sign, hsign⟩ : ∃ sign : Sign, (if g.next.1 % 3 = 0 then '+' else '*') = sign.char := by
        split
        exacts [⟨.plus, rfl⟩, ⟨.times, rfl⟩]
      refine ⟨.binary sign left right, ?_⟩
      rw [hright, hsign, ← skip_add, Tree.text, Tree.size, Nat.add_right_comm]

/-- A random expression of a depth is the text of a tree of that depth, from whatever state the
generator is in. So its length is odd and within bounds, its parentheses are nested no deeper than
the tree is, and as many random numbers went into it as it has characters that are no opening
parentheses. -/
theorem expression_eq_text (g : Generator) (depth : Int) :
    ∃ t : Tree depth.toNat,
      g.expression depth = (String.ofList t.text, skip (t.text.length - t.text.count '(') g) ∧
      Odd t.text.length ∧
      2 * depth.toNat + 1 ≤ t.text.length ∧ t.text.length ≤ 2 ^ (depth.toNat + 1) - 1 ∧
      nesting t.text ≤ depth.toNat := by
  obtain ⟨t, ht⟩ := characters_eq depth.toNat g
  refine ⟨t, ?_, t.odd_length_text, t.lt_length_text, Nat.le_sub_one_of_lt t.length_text_lt,
    t.nesting_text_le⟩
  rw [expression, ht, t.length_text, Nat.add_sub_cancel]

end ParserGraph.Generator
