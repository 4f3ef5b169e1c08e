import Mathlib.Data.List.Infix
import Mathlib.Order.Bounds.Defs
import Mathlib.Tactic.IntervalCases
import ParserGraph.Proofs.Arithmetic.Parsing
import ParserGraph.Proofs.Evaluation.Leveling

/-!
# Parentheses and depth

How deep a parse of an arithmetic text goes depends on its parentheses only. A pair of them is read
by a row of calls that comes back to an expression after eleven steps, and every other call leads
further away from one. So ranks and the balance of parentheses are a leveling of the compiled graph
(`levels`, `fits`): the calls inside each other are at most eleven for each parenthesis that is open
and not closed, and those of one expression (`parse_within_nesting`). That holds of every text, also
where a parenthesis is never closed or an operand is missing and the parse goes back.
-/

namespace ParserGraph.Arithmetic

/-! ## Open parentheses -/

/-- How many more parentheses a text opens than it closes. -/
def balance (cs : List Char) : Int :=
  cs.count '(' - cs.count ')'

theorem map_inits_ne_nil (cs : List Char) : cs.inits.map balance ≠ [] :=
  List.ne_nil_of_mem (List.mem_map_of_mem ((List.mem_inits [] cs).mpr List.nil_prefix))

/-- The most that are open at once: the largest balance of a prefix. The empty one has none open. -/
def nesting (cs : List Char) : Nat :=
  ((cs.inits.map balance).max (map_inits_ne_nil cs)).toNat

theorem balance_append (cs ds : List Char) : balance (cs ++ ds) = balance cs + balance ds := by
  simp only [balance, List.count_append]
  push_cast
  omega

theorem isGreatest_nesting (cs : List Char) :
    IsGreatest {b | ∃ before, before <+: cs ∧ balance before = b} (nesting cs) := by
  have hne := map_inits_ne_nil cs
  have hle : ∀ before, before <+: cs → balance before ≤ (cs.inits.map balance).max hne :=
    fun before hb => List.le_max_of_mem (List.mem_map_of_mem ((List.mem_inits _ _).mpr hb))
  have hnonneg : 0 ≤ (cs.inits.map balance).max hne := hle [] List.nil_prefix
  rw [nesting, Int.toNat_of_nonneg hnonneg]
  constructor
  · obtain ⟨before, hb, heq⟩ := List.mem_map.mp (List.max_mem hne)
    exact ⟨before, (List.mem_inits _ _).mp hb, heq⟩
  · rintro _ ⟨before, hb, rfl⟩
    exact hle before hb

example : nesting "2)*((3)+(1".toList = 1 ∧ nesting "1+((2".toList = 2 := by decide

/-- A parenthesis that is open in the second of two texts may be so inside those of the first. -/
theorem nesting_append_le (cs ds : List Char) :
    (nesting (cs ++ ds) : Int) ≤ max (nesting cs : Int) (balance cs + nesting ds) := by
  obtain ⟨before, ⟨rest, hb⟩, heq⟩ := (isGreatest_nesting (cs ++ ds)).1
  rw [← heq]
  rcases List.append_eq_append_iff.mp hb with ⟨more, rfl, -⟩ | ⟨more, rfl, rfl⟩
  · exact le_max_of_le_left ((isGreatest_nesting _).2 ⟨_, List.prefix_append .., rfl⟩)
  · rw [balance_append]
    refine le_max_of_le_right (Int.add_le_add_left ?_ _)
    exact (isGreatest_nesting _).2 ⟨_, List.prefix_append .., rfl⟩

/-! ## The leveling of the compiled graph -/

/-- A parenthesis that is read takes the level up or down by the eleven calls that lead from one
expression to another inside it. -/
def rise : Object → Int
  | .node 30 => 11
  | .node 31 => -11
  | _ => 0

/-- How many calls can be made inside one of a node, without entering an expression in
parentheses. -/
def rank : Object → Nat
  | .node 13 => 13
  | .node 12 => 12
  | .node 17 => 11
  | .node 16 => 10
  | .node 15 => 9
  | .node 14 => 8
  | .node 21 => 7
  | .node 20 => 6
  | .node 19 => 5
  | .node 18 => 4
  | .node 22 => 3
  | .node 25 => 2
  | .node 23 | .node 24 | .node 26 => 1
  | _ => 0

theorem levels {o : Object} {p : Parser} (h : compiled.parser? o = some p) :
    p.Levels rise rank o := by
  obtain ⟨id, rfl⟩ := Graph.exists_of_parser? h
  have hall : ∀ id : Fin 32, ∀ p ∈ compiled.parser? (.node id), p.Levels rise rank (.node id) := by
    decide
  exact hall ⟨id, Graph.lt_of_parser? h⟩ p h

/-- The leveling of the compiled graph by parentheses. -/
def leveling : compiled.Leveling where
  rise := rise
  rank := rank
  levels := levels

/-- The level of a position of a text. -/
def level (text : String) (i : Int) : Int :=
  11 * balance (text.toList.take i.toNat)

theorem level_succ {text : String} {c : Char} {rest : List Char} {n : Nat}
    (h : text.toList.drop n = c :: rest) :
    level text (n + 1 : Nat) = level text n + 11 * balance [c] := by
  have hget : text.toList[n]? = some c := by rw [← List.head?_drop, h, List.head?_cons]
  simp only [level, Int.toNat_natCast, List.take_add_one, hget, Option.toList_some, balance_append]
  omega

/-- A literal raises the level by what all the characters in its range do. -/
theorem element_rises (text : String) {lower upper : Char} {amount i : Int}
    (h : ∀ c, lower ≤ c ∧ c ≤ upper → 11 * balance [c] = amount) (hi : 0 ≤ i) :
    ((Content.ofValue (.text text)).element (.character lower) (.character upper) i).Rises
      (level text) i amount := by
  obtain ⟨n, rfl⟩ := Int.eq_ofNat_of_zero_le hi
  cases hd : text.toList.drop n with
  | nil =>
    have hn : text.toList.length ≤ n := List.drop_eq_nil_iff.mp hd
    have hread : (Content.ofValue (.text text)).read n = .ok none := by
      simp only [Content.ofValue, Content.read, List.size_toArray, List.length_map]
      rw [if_pos (by omega)]
    simp only [Content.element, hread, Verdict.Rises]
  | cons c rest =>
    have hn : n < text.toList.length := by
      by_contra hn
      rw [List.drop_eq_nil_of_le (by omega)] at hd
      cases hd
    have hplace := place_drop text hn.le
    rw [hd] at hplace
    rw [← hplace, Content.element_place_cons (hd ▸ List.drop_suffix n text.toList)]
    split
    · rename_i hc
      rw [Verdict.Rises, place_cons text c rest, hplace, ← h c hc]
      exact level_succ hd
    · trivial

theorem element_same_rises (text : String) (c : Char) {i : Int} (hi : 0 ≤ i) :
    ((Content.ofValue (.text text)).element (.character c) (.character c) i).Rises (level text) i
      (11 * balance [c]) :=
  element_rises text (fun _ hc => by rw [Char.le_antisymm hc.2 hc.1]) hi

theorem balance_digit {c : Char} (h : '0' ≤ c ∧ c ≤ '9') : 11 * balance [c] = 0 := by
  obtain ⟨d, rfl⟩ := exists_digitChar h
  revert d
  decide

/-- Only parentheses raise the level of a text. -/
theorem fits (text : String) : leveling.Fits (.ofValue (.text text)) (level text) := by
  intro o lower upper hp i hi
  obtain ⟨id, rfl⟩ := Graph.exists_of_parser? hp
  have hid : id < 32 := Graph.lt_of_parser? hp
  interval_cases id
  all_goals cases hp
  · exact element_same_rises text '+' hi
  · exact element_same_rises text '*' hi
  · exact element_rises text (fun _ hc => balance_digit hc) hi
  · exact element_same_rises text '(' hi
  · exact element_same_rises text ')' hi

/-! ## The depth of a parse -/

/-- However long a text is, to parse it with the arithmetic grammar takes no more calls inside each
other than eleven for each of the parentheses that are open at once, and fourteen. -/
theorem parse_within_nesting :
    ∃ l root, GrammarKind.arithmetic.language = .ok l ∧ l.grammar.compiledRoot = .ok root ∧
      ∀ text : String,
        l.graph.EndsWithin (.ofValue (.text text)) (.node root) 0 (11 * nesting text.toList + 14) ∧
        l.parse (.ofValue (.text text)) =
          (l.graph.evaluate (.ofValue (.text text)) (11 * nesting text.toList + 14) (.node root)
            { position := 0 }).1.toExcept := by
  obtain ⟨log, hl⟩ := language_eq
  refine ⟨_, 13, hl, rfl, fun text => ?_⟩
  have htop : ∀ i, 0 ≤ i → level text i ≤ 11 * nesting text.toList := by
    intro i _
    have hle := (isGreatest_nesting text.toList).2 ⟨_, List.take_prefix i.toNat _, rfl⟩
    exact Int.mul_le_mul_of_nonneg_left hle (by decide)
  have hstart : 13 - level text 0 + 11 * nesting text.toList <
      (11 * nesting text.toList + 14 : Nat) := by
    rw [show level text 0 = 0 from rfl]
    omega
  have hwithin : compiled.EndsWithin (.ofValue (.text text)) (.node 13) 0
      (11 * nesting text.toList + 14) :=
    Graph.endsWithin_of_fits (fits text) htop (Int.le_refl 0) hstart
  exact ⟨hwithin, (parse_compiled log _).trans (congrArg (·.1.toExcept) hwithin.parse_eq)⟩

end ParserGraph.Arithmetic
