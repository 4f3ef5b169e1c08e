import Mathlib.Data.Nat.Find
import ParserGraph.Proofs.Arithmetic.Generated
import ParserGraph.Proofs.Evaluation.Returning

/-!
# The longest prefix

A parse takes the first alternative that matches and goes on with a repetition as long as it can, so
in general what it reads need not be the longest of what it might have. For the productions of the
arithmetic grammar it is. A longest prefix that is an expression stops both chains behind it, as a
sign and a factor there would make it longer (`stopsAt_products`, `stopsAt_sums`), and where the
chains stop the nodes read exactly that far (`reads_longest`). Without any derived prefix nothing is
read, and the parse goes back (`fails`). `parse_longest` says this of the compiled productions, from
every position of a text.
-/

namespace ParserGraph.Arithmetic

variable {text : String} {cs longest rest : List Char}

/-- The productions that refer to each other. -/
inductive Production
  | exp
  | e1
  | e2
  | parenExp

namespace Production

/-- The name a production is declared under. -/
def name : Production → String
  | exp => "exp"
  | e1 => "e1"
  | e2 => "e2"
  | parenExp => "paren_exp"

/-- The node a production is compiled to. -/
def root : Production → NodeId
  | exp => 17
  | e1 => 21
  | e2 => 22
  | parenExp => 25

/-- The texts that a production derives. -/
def Derives : Production → List Char → Prop
  | exp, cs => ∃ e : Expression, e.text = cs
  | e1, cs => ∃ t : Term, t.text = cs
  | e2, cs => ∃ f : Factor, f.text = cs
  | parenExp, cs => ∃ e : Expression, (Factor.parens e).text = cs

/-- A production derives some prefix of a text. -/
def DerivesPrefix (p : Production) (cs : List Char) : Prop :=
  ∃ derived, derived <+: cs ∧ p.Derives derived

/-- The longest prefix of a text that a production derives. -/
structure Longest (p : Production) (cs longest : List Char) : Prop where
  isPrefix : longest <+: cs
  derives : p.Derives longest
  length_le : ∀ other, other <+: cs → p.Derives other → other.length ≤ longest.length

variable {p : Production}

/-- Of the prefixes that a production derives, one is the longest. -/
theorem exists_longest (h : p.DerivesPrefix cs) : ∃ longest, p.Longest cs longest := by
  classical
  obtain ⟨derived, hp, hd⟩ := h
  let P : Nat → Prop := fun n => p.Derives (cs.take n)
  have hP {other : List Char} (hother : other <+: cs) (h : p.Derives other) : P other.length := by
    simpa only [P, ← List.prefix_iff_eq_take.mp hother] using h
  have hfound : P (Nat.findGreatest P cs.length) := Nat.findGreatest_spec hp.length_le (hP hp hd)
  refine ⟨cs.take (Nat.findGreatest P cs.length), List.take_prefix _ _, hfound, ?_⟩
  intro other hother h
  rw [List.length_take_of_le (Nat.findGreatest_le _)]
  exact Nat.le_findGreatest hother.length_le (hP hother h)

/-- Nothing more can be added to a longest prefix. -/
theorem Longest.eq_nil {more : List Char} (h : p.Longest (longest ++ (more ++ rest)) longest)
    (hm : p.Derives (longest ++ more)) : more = [] := by
  have hle := h.length_le (longest ++ more)
    (List.append_assoc longest more rest ▸ List.prefix_append _ _) hm
  rw [List.length_append] at hle
  exact List.length_eq_zero_iff.mp (by omega)

end Production

open Production (Longest)

/-! ## Where the chains stop -/

/-- Behind a sign, a factor could be added, or none is read. -/
theorem stopsAt_of_sign (c : Chain compiled) (h : rest <:+ text.toList)
    (hadd : ∀ (f : Factor) (rest' : List Char), rest ≠ c.sign :: (f.text ++ rest'))
    (hoperand : ∀ cs, Refused text cs → ReadsAt text c.operand cs .fail) : StopsAt text c rest := by
  by_cases hsign : rest.head? = some c.sign
  · obtain ⟨cs, rfl⟩ := List.head?_eq_some_iff.mp hsign
    rcases (total ((List.suffix_cons _ _).trans h)).factor with hr | ⟨f, rest', rfl⟩
    · exact Chain.stops_of_operand (reads_sign c h) (hoperand cs hr)
    · exact absurd rfl (hadd f rest')
  · exact stopsAt_of_ne c h hsign

theorem stopsAt_products (h : rest <:+ text.toList)
    (hadd : ∀ (f : Factor) (rest' : List Char), rest ≠ '*' :: (f.text ++ rest')) :
    StopsAt text products rest :=
  stopsAt_of_sign products h hadd fun _ hr => hr

theorem stopsAt_sums (h : rest <:+ text.toList)
    (hadd : ∀ (f : Factor) (rest' : List Char), rest ≠ '+' :: (f.text ++ rest')) :
    StopsAt text sums rest :=
  stopsAt_of_sign sums h hadd fun _ hr => Chain.reads_fail hr

/-! ## What is read -/

/-- The longest prefix is read, exactly. -/
theorem reads_longest {p : Production} (h : longest ++ rest <:+ text.toList)
    (hl : p.Longest (longest ++ rest) longest) :
    ∃ v, ReadsAt text (.node p.root) (longest ++ rest) (.ok v (place text rest)) := by
  have hrest : rest <:+ text.toList := (List.suffix_append _ _).trans h
  -- A sign and a factor behind the prefix would make it longer.
  have hadd {sign : Char} (hsign : ∀ f : Factor, p.Derives (longest ++ sign :: f.text))
      (f : Factor) (rest' : List Char) : rest ≠ sign :: (f.text ++ rest') := by
    rintro rfl
    rw [← List.cons_append] at hl
    cases hl.eq_nil (hsign f)
  cases p with
  | exp =>
    obtain ⟨e, rfl⟩ := hl.derives
    have hp := stopsAt_sums hrest
      (hadd fun f => ⟨e.append f.expression, Expression.text_append e _⟩)
    have ht := stopsAt_products hrest
      (hadd fun f => ⟨e.times f.expression, Expression.text_times e _⟩)
    exact ⟨_, Chain.reads (e.readsParts h hp ht)⟩
  | e1 =>
    obtain ⟨t, rfl⟩ := hl.derives
    have ht := stopsAt_products hrest
      (hadd fun f => ⟨t.append (.last f), Term.text_append t _⟩)
    exact ⟨_, Chain.reads (t.readsParts h ht)⟩
  | e2 =>
    obtain ⟨f, rfl⟩ := hl.derives
    exact ⟨_, f.reads h⟩
  | parenExp =>
    obtain ⟨e, rfl⟩ := hl.derives
    simp only [Factor.text, List.cons_append, List.append_assoc, List.nil_append] at h ⊢
    exact ⟨_, reads_parens h (e.readsParts ((List.suffix_cons _ _).trans h))⟩

/-! ## What is not read -/

/-- Without an expression in parentheses at its start, the row of one is not read. -/
theorem row_fails (h : cs <:+ text.toList)
    (hn : ¬ Production.parenExp.DerivesPrefix cs) :
    ReadsAt text (.node 24) cs .fail := by
  by_cases hc : cs.head? = some '('
  · obtain ⟨cs, rfl⟩ := List.head?_eq_some_iff.mp hc
    rcases row_total h (total ((List.suffix_cons _ _).trans h)) with hrow | ⟨e, rest, he⟩
    · exact hrow
    · exact absurd ⟨_, he ▸ List.prefix_append _ _, e, rfl⟩ hn
  · have hopen : ReadsAt text (.node 30) cs .fail := Graph.reads_fail_of_ne rfl h hc
    have hrow : ReadsAt text (.node 24) cs (Verdict.fail.map .list) := .sequence rfl (.fail hopen)
    exact hrow

/-- Without a prefix that is a factor, none is read. -/
theorem refused_of_underivable (h : cs <:+ text.toList)
    (hn : ¬ Production.e2.DerivesPrefix cs) : Refused text cs := by
  rcases (total h).factor with hr | ⟨f, rest, rfl⟩
  · exact hr
  · exact absurd ⟨_, List.prefix_append _ _, f, rfl⟩ hn

/-- A chain without a first operand fails, and goes back. -/
theorem Chain.fails {c : Chain compiled} {i : Int}
    (h : compiled.Reads (.ofValue (.text text)) c.operand i .fail) :
    compiled.Reads (.ofValue (.text text)) c.whole i .fail ∧
      compiled.GoesBack (.ofValue (.text text)) c.whole i := by
  have hparts : compiled.Reads (.ofValue (.text text)) c.parts i (Verdict.fail.map .list) :=
    .sequence c.parts_eq (.fail h)
  exact ⟨.mapFail c.whole_eq hparts, (Graph.goesBack_sequence c.parts_eq i).map c.whole_eq hparts⟩

/-- A production that derives no prefix fails, and goes back. -/
theorem fails {p : Production} (h : cs <:+ text.toList)
    (hn : ¬ p.DerivesPrefix cs) :
    ReadsAt text (.node p.root) cs .fail ∧
      compiled.GoesBack (.ofValue (.text text)) (.node p.root) (place text cs) := by
  -- A production whose texts are all derived by this one derives no prefix either.
  have other {q : Production} (hq : ∀ derived, q.Derives derived → p.Derives derived) :
      ¬ q.DerivesPrefix cs := by
    rintro ⟨derived, hp, hd⟩
    exact hn ⟨derived, hp, hq derived hd⟩
  cases p with
  | exp =>
    have hr : Refused text cs :=
      refused_of_underivable h (other fun _ ⟨f, hf⟩ => ⟨f.expression, hf⟩)
    exact Chain.fails (c := sums) (Chain.reads_fail hr)
  | e1 =>
    have hr : Refused text cs := refused_of_underivable h (other fun _ ⟨f, hf⟩ => ⟨.last f, hf⟩)
    exact Chain.fails (c := products) hr
  | e2 =>
    have hrow := row_fails h (other fun _ ⟨e, he⟩ => ⟨.parens e, he⟩)
    have hparens : compiled.GoesBack (.ofValue (.text text)) (.node 25) (place text cs) :=
      (Graph.goesBack_sequence rfl _).map rfl hrow
    exact ⟨refused_of_underivable h hn, hparens.second rfl⟩
  | parenExp =>
    have hrow := row_fails h hn
    exact ⟨.mapFail rfl hrow, (Graph.goesBack_sequence rfl _).map rfl hrow⟩

/-! ## Parses of a production -/

/-- A parse of an object matches exactly where a production derives some prefix of what is left of a
text, and then ends behind the longest one. Otherwise it ends where it began. -/
structure ParsesLongest (g : Graph) (o : Object) (p : Production) (text : String) (start : Nat) :
    Prop where
  matched_iff : (∃ v s, g.parse o (.ofValue (.text text)) start = (.matched v, s)) ↔
    p.DerivesPrefix (text.toList.drop start)
  longest : p.DerivesPrefix (text.toList.drop start) →
    ∃ longest v s, p.Longest (text.toList.drop start) longest ∧
      g.parse o (.ofValue (.text text)) start = (.matched v, s) ∧
      s.position = start + longest.length
  mismatch : ¬ p.DerivesPrefix (text.toList.drop start) →
    ∃ s, g.parse o (.ofValue (.text text)) start = (.mismatch, s) ∧ s.position = start

theorem parse_matched (p : Production) (start : Fin (text.toList.length + 1))
    (h : p.DerivesPrefix (text.toList.drop start)) :
    ∃ longest v s, p.Longest (text.toList.drop start) longest ∧
      compiled.parse (.node p.root) (.ofValue (.text text)) (start : Nat) = (.matched v, s) ∧
      s.position = (start : Nat) + longest.length := by
  obtain ⟨longest, hl⟩ := Production.exists_longest h
  obtain ⟨rest, hrest⟩ := hl.isPrefix
  obtain ⟨v, hv⟩ := reads_longest (hrest ▸ List.drop_suffix start text.toList) (hrest ▸ hl)
  rw [ReadsAt, hrest, place_drop text start.is_le, ← Graph.ofRun?_parse_iff] at hv
  obtain ⟨s, hr, hs⟩ := Graph.eq_matched_of_ofRun? hv
  have hend : place text rest = (start : Nat) + longest.length := by
    have hlen := congrArg List.length hrest
    have hstart := place_drop text start.is_le
    simp only [List.length_append] at hlen
    simp only [place, ← hlen] at hstart ⊢
    omega
  exact ⟨longest, v, s, hl, hr, hs.trans hend⟩

theorem parse_mismatch (p : Production) (start : Fin (text.toList.length + 1))
    (h : ¬ p.DerivesPrefix (text.toList.drop start)) :
    ∃ s, compiled.parse (.node p.root) (.ofValue (.text text)) (start : Nat) = (.mismatch, s) ∧
      s.position = (start : Nat) := by
  obtain ⟨hf, hback⟩ := fails (List.drop_suffix start text.toList) h
  rw [ReadsAt, place_drop text start.is_le] at hf
  rw [place_drop text start.is_le] at hback
  exact hback.parse hf

theorem parsesLongest (p : Production) (text : String) (start : Fin (text.toList.length + 1)) :
    ParsesLongest compiled (.node p.root) p text start := by
  refine ⟨⟨?_, fun h => ?_⟩, parse_matched p start, parse_mismatch p start⟩
  · rintro ⟨v, s, hr⟩
    by_contra h
    obtain ⟨s', hr', -⟩ := parse_mismatch p start h
    cases hr.symm.trans hr'
  · obtain ⟨-, v, s, -, hr, -⟩ := parse_matched p start h
    exact ⟨v, s, hr⟩

/-- From every position of a text, a compiled production of the arithmetic grammar reads the longest
prefix of what is left that it derives. -/
theorem parse_longest :
    ∃ l, GrammarKind.arithmetic.language = .ok l ∧ ∀ p : Production, ∃ id root,
      l.grammar.find? (.text p.name) = some id ∧
        l.graph.compact (.node id) = (.ok root, l.graph) ∧
          ∀ (text : String) (start : Fin (text.toList.length + 1)),
            ParsesLongest l.graph (.node root) p text start := by
  obtain ⟨log, hl⟩ := language_eq
  refine ⟨_, hl, fun p => ?_⟩
  have hfound : ∃ id, grammar.find? (.text p.name) = some id ∧
      compiled.compact (.node id) = (.ok p.root, compiled) := by
    cases p with
    | exp => exact ⟨1, rfl, rfl⟩
    | e1 => exact ⟨2, rfl, rfl⟩
    | e2 => exact ⟨3, rfl, rfl⟩
    | parenExp => exact ⟨4, rfl, rfl⟩
  obtain ⟨id, hfind, hcompact⟩ := hfound
  exact ⟨id, p.root, hfind, hcompact, parsesLongest p⟩

end ParserGraph.Arithmetic
