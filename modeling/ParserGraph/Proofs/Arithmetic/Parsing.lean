import ParserGraph.Proofs.Arithmetic.Compiled
import ParserGraph.Proofs.Arithmetic.Derivation
import ParserGraph.Proofs.Evaluation.Text

/-!
# Parsing arithmetic texts

The compiled grammar is read along a derivation: where the text of a tree stands, and neither chain
goes on behind it, the productions read exactly that text and give the value of the tree up to its
remainder (`Expression.readsParts`). From every place of a text a factor, and so a term and an
expression, is either refused or read along some tree (`total`), by induction on what is left of the
text. As a tree is determined by its text, this settles every parse (`parse_arithmetic`).
-/

namespace ParserGraph.Arithmetic

open ParserGraph.Graph (Reads ReadsInOrder ReadsRounds)

variable {text : String} {rest : List Char}

/-- What the arithmetic grammar reads from where only `rest` is left of a text. -/
abbrev ReadsAt (text : String) (o : Object) (rest : List Char) (e : Verdict Value) : Prop :=
  compiled.Reads (.ofValue (.text text)) o (place text rest) e

/-- No further operand of a chain follows. -/
abbrev StopsAt (text : String) (c : Chain compiled) (rest : List Char) : Prop :=
  c.Stops (.ofValue (.text text)) (place text rest)

/-- A chain does not go on with another character than its sign. -/
theorem stopsAt_of_ne (c : Chain compiled) (h : rest <:+ text.toList)
    (hc : rest.head? ≠ some c.sign) : StopsAt text c rest :=
  Chain.stops_of_operator (Graph.reads_fail_of_ne c.operator_eq h hc)

theorem reads_sign (c : Chain compiled) (h : c.sign :: rest <:+ text.toList) :
    ReadsAt text c.operator (c.sign :: rest) (.ok (.character c.sign) (place text rest)) :=
  Graph.reads_same c.operator_eq h

theorem integer_digitChar (d : Fin 10) :
    Transform.integer.apply (.character (digitChar d)) = .ok (.int (d : Nat)) := by
  have h : Number.integer? [digitChar d] = some ((d : Nat) : Int) := by
    revert d
    decide
  refine Transform.apply_of_compute ?_
  simp [Transform.integer, Value.character, Value.toInteger, h, Fault.orElse, Except.map]

/-! ## Reading along a derivation -/

/-- An expression is read in parentheses as it is where no sign follows. -/
theorem reads_parens {e : Expression} (h : '(' :: (e.text ++ ')' :: rest) <:+ text.toList)
    (he : StopsAt text sums (')' :: rest) → StopsAt text products (')' :: rest) →
      sums.ReadsParts (.ofValue (.text text)) (place text (e.text ++ ')' :: rest))
        (place text (')' :: rest)) e.value) :
    ReadsAt text (.node 25) ('(' :: (e.text ++ ')' :: rest))
      (.ok (.int (e.value % modulus : Nat)) (place text rest)) := by
  have hclose : ')' :: rest <:+ text.toList :=
    (List.suffix_append _ _).trans ((List.suffix_cons _ _).trans h)
  have hinner := Chain.reads (he (stopsAt_of_ne sums hclose (by simp [sums]))
    (stopsAt_of_ne products hclose (by simp [products])))
  have hopen : ReadsAt text (.node 30) ('(' :: (e.text ++ ')' :: rest)) _ := Graph.reads_same rfl h
  have hend : ReadsAt text (.node 31) (')' :: rest) _ := Graph.reads_same rfl hclose
  have hrow : ReadsAt text (.node 24) ('(' :: (e.text ++ ')' :: rest)) _ :=
    .sequence rfl (.cons hopen (.cons hinner (.cons hend .nil)))
  have hparens : ReadsAt text (.node 25) ('(' :: (e.text ++ ')' :: rest)) _ := .map rfl hrow
  exact hparens

mutual

/-- Where no plus or times sign is followed by another operand, an expression is read exactly. -/
theorem Expression.readsParts (e : Expression) {rest : List Char}
    (h : e.text ++ rest <:+ text.toList) (hp : StopsAt text sums rest)
    (ht : StopsAt text products rest) :
    sums.ReadsParts (.ofValue (.text text)) (place text (e.text ++ rest)) (place text rest)
      e.value := by
  match e with
  | .last t =>
    exact Chain.readsParts_last (place_append_lt text t.text_ne_nil rest)
      (Chain.reads (Term.readsParts t h ht)) hp
  | .plus t e =>
    simp only [Expression.text, List.append_assoc, List.cons_append] at h ⊢
    have hsign : '+' :: (e.text ++ rest) <:+ text.toList := (List.suffix_append _ _).trans h
    have hstop : StopsAt text products ('+' :: (e.text ++ rest)) :=
      stopsAt_of_ne products hsign (by simp [products])
    exact Chain.readsParts_more (place_append_lt text t.text_ne_nil _)
      (Chain.reads (Term.readsParts t h hstop)) (place_lt_cons text _ _) (reads_sign sums hsign)
      (Expression.readsParts e ((List.suffix_cons _ _).trans hsign) hp ht)

theorem Term.readsParts (t : Term) {rest : List Char} (h : t.text ++ rest <:+ text.toList)
    (ht : StopsAt text products rest) :
    products.ReadsParts (.ofValue (.text text)) (place text (t.text ++ rest)) (place text rest)
      t.value := by
  match t with
  | .last f =>
    exact Chain.readsParts_last (place_append_lt text f.text_ne_nil rest) (Factor.reads f h) ht
  | .times f t =>
    simp only [Term.text, List.append_assoc, List.cons_append] at h ⊢
    have hsign : '*' :: (t.text ++ rest) <:+ text.toList := (List.suffix_append _ _).trans h
    exact Chain.readsParts_more (place_append_lt text f.text_ne_nil _) (Factor.reads f h)
      (place_lt_cons text _ _) (reads_sign products hsign)
      (Term.readsParts t ((List.suffix_cons _ _).trans hsign) ht)

/-- A factor is read exactly, whatever follows. -/
theorem Factor.reads (f : Factor) {rest : List Char} (h : f.text ++ rest <:+ text.toList) :
    ReadsAt text products.operand (f.text ++ rest)
      (.ok (.int (f.value % modulus : Nat)) (place text rest)) := by
  match f with
  | .digit d =>
    have hd : ReadsAt text (.node 29) (digitChar d :: rest) _ :=
      Graph.reads_character rfl h (digitChar_mem d)
    have hnumber : ReadsAt text (.node 26) (digitChar d :: rest) _ := .map rfl hd
    rw [integer_digitChar] at hnumber
    have hlt : (d : Nat) % modulus = d := by
      have := d.isLt
      simp only [modulus]
      omega
    rw [Factor.value, hlt]
    exact .first rfl hnumber nofun
  | .parens e =>
    simp only [Factor.text, List.cons_append, List.append_assoc, List.nil_append] at h ⊢
    have hdigit : ReadsAt text (.node 29) ('(' :: (e.text ++ ')' :: rest)) .fail :=
      Graph.reads_fail rfl h (by simp)
    have hparens := reads_parens h (Expression.readsParts e ((List.suffix_cons _ _).trans h))
    exact .second rfl (.mapFail rfl hdigit) hparens

end

/-! ## Reading any text -/

/-- No factor is read, so neither a term nor an expression is. -/
abbrev Refused (text : String) (rest : List Char) : Prop :=
  ReadsAt text products.operand rest .fail

theorem Refused.expression (h : Refused text rest) : ReadsAt text sums.whole rest .fail :=
  Chain.reads_fail (Chain.reads_fail h)

/-- What is left of a text is refused, or it begins with a factor, a term and an expression, and the
chains do not go on behind these. -/
structure Total (text : String) (cs : List Char) : Prop where
  factor : Refused text cs ∨ ∃ (f : Factor) (rest : List Char), cs = f.text ++ rest
  term : Refused text cs ∨ ∃ (t : Term) (rest : List Char), cs = t.text ++ rest ∧
    StopsAt text products rest
  expression : Refused text cs ∨ ∃ (e : Expression) (rest : List Char), cs = e.text ++ rest ∧
    StopsAt text sums rest ∧ StopsAt text products rest

theorem refused_of_fail (hd : ReadsAt text (.node 29) rest .fail)
    (hp : ReadsAt text (.node 24) rest .fail) : Refused text rest :=
  .second rfl (.mapFail rfl hd) (.mapFail rfl hp)

/-- A character that begins no factor. -/
theorem refused_of_ne {cs : List Char} (h : cs <:+ text.toList)
    (hd : ∀ c, cs.head? = some c → ¬('0' ≤ c ∧ c ≤ '9')) (hc : cs.head? ≠ some '(') :
    Refused text cs := by
  have hopen : ReadsAt text (.node 30) cs .fail := Graph.reads_fail_of_ne rfl h hc
  have hrow : ReadsAt text (.node 24) cs (Verdict.fail.map .list) := .sequence rfl (.fail hopen)
  exact refused_of_fail (Graph.reads_fail rfl h hd) hrow

/-- After a parenthesis the expression inside decides, and what follows it. -/
theorem row_total {cs : List Char} (h : '(' :: cs <:+ text.toList) (hcs : Total text cs) :
    ReadsAt text (.node 24) ('(' :: cs) .fail ∨
      ∃ (e : Expression) (rest : List Char), '(' :: cs = (Factor.parens e).text ++ rest := by
  have hopen : ReadsAt text (.node 30) ('(' :: cs) _ := Graph.reads_same rfl h
  rcases hcs.expression with hr | ⟨e, rest, rfl, hp, ht⟩
  · have hrow : ReadsAt text (.node 24) ('(' :: cs) ((Verdict.fail.map (_ :: ·)).map .list) :=
      .sequence rfl (.cons hopen (.fail hr.expression))
    exact .inl hrow
  have hinner := (List.suffix_cons _ _).trans h
  have he := Chain.reads (e.readsParts hinner hp ht)
  by_cases hclose : rest.head? = some ')'
  · obtain ⟨rest, rfl⟩ := List.head?_eq_some_iff.mp hclose
    exact .inr ⟨e, rest, by simp [Factor.text]⟩
  · have hend : ReadsAt text (.node 31) rest .fail :=
      Graph.reads_fail_of_ne rfl ((List.suffix_append _ _).trans hinner) hclose
    have hrow : ReadsAt text (.node 24) ('(' :: (e.text ++ rest))
        (((Verdict.fail.map (_ :: ·)).map (_ :: ·)).map .list) :=
      .sequence rfl (.cons hopen (.cons he (.fail hend)))
    exact .inl hrow

theorem parens_total {cs : List Char} (h : '(' :: cs <:+ text.toList) (hcs : Total text cs) :
    Refused text ('(' :: cs) ∨ ∃ (f : Factor) (rest : List Char), '(' :: cs = f.text ++ rest := by
  have hdigit : ReadsAt text (.node 29) ('(' :: cs) .fail := Graph.reads_fail rfl h (by simp)
  rcases row_total h hcs with hrow | ⟨e, rest, he⟩
  · exact .inl (refused_of_fail hdigit hrow)
  · exact .inr ⟨.parens e, rest, he⟩

/-- After a factor the sign behind it decides, and what follows that. -/
theorem term_total {f : Factor} (h : f.text ++ rest <:+ text.toList)
    (ih : ∀ cs, '*' :: cs = rest → Total text cs) :
    ∃ (t : Term) (rest' : List Char), f.text ++ rest = t.text ++ rest' ∧
      StopsAt text products rest' := by
  have hrest : rest <:+ text.toList := (List.suffix_append _ _).trans h
  by_cases hsign : rest.head? = some '*'
  · obtain ⟨cs, rfl⟩ := List.head?_eq_some_iff.mp hsign
    rcases (ih cs rfl).term with hr | ⟨t, rest', rfl, ht⟩
    · exact ⟨.last f, _, rfl, Chain.stops_of_operand (reads_sign products hrest) hr⟩
    · exact ⟨.times f t, rest', by simp [Term.text], ht⟩
  · exact ⟨.last f, rest, rfl, stopsAt_of_ne products hrest hsign⟩

/-- After a term the sign behind it decides, and what follows that. -/
theorem expression_total {t : Term} (h : t.text ++ rest <:+ text.toList)
    (ht : StopsAt text products rest) (ih : ∀ cs, '+' :: cs = rest → Total text cs) :
    ∃ (e : Expression) (rest' : List Char), t.text ++ rest = e.text ++ rest' ∧
      StopsAt text sums rest' ∧ StopsAt text products rest' := by
  have hrest : rest <:+ text.toList := (List.suffix_append _ _).trans h
  by_cases hsign : rest.head? = some '+'
  · obtain ⟨cs, rfl⟩ := List.head?_eq_some_iff.mp hsign
    rcases (ih cs rfl).expression with hr | ⟨e, rest', rfl, hp, ht'⟩
    · exact ⟨.last t, _, rfl,
        Chain.stops_of_operand (reads_sign sums hrest) (Chain.reads_fail hr), ht⟩
    · exact ⟨.plus t e, rest', by simp [Expression.text], hp, ht'⟩
  · exact ⟨.last t, rest, rfl, stopsAt_of_ne sums hrest hsign, ht⟩

theorem total {cs : List Char} (h : cs <:+ text.toList) : Total text cs := by
  induction hn : cs.length using Nat.strong_induction_on generalizing cs with
  | _ n ih =>
    subst hn
    -- What is left behind a part and a sign is shorter.
    have shorter {part rest cs' : List Char} {sign : Char} (hcs : cs = part ++ rest)
        (hr : sign :: cs' = rest) : Total text cs' := by
      subst hr
      have hs : cs' <:+ cs := hcs ▸ (List.suffix_cons _ _).trans (List.suffix_append _ _)
      exact ih _ (by simp [hcs]; omega) (hs.trans h) rfl
    have factor : Refused text cs ∨ ∃ (f : Factor) (rest : List Char), cs = f.text ++ rest := by
      cases cs with
      | nil => exact .inl (refused_of_ne h nofun nofun)
      | cons c cs =>
        by_cases hd : '0' ≤ c ∧ c ≤ '9'
        · obtain ⟨d, rfl⟩ := exists_digitChar hd
          exact .inr ⟨.digit d, cs, rfl⟩
        by_cases hc : c = '('
        · subst hc
          exact parens_total h (shorter (List.nil_append _).symm rfl)
        · exact .inl (refused_of_ne h (by simpa using hd) (by simpa using hc))
    have term : Refused text cs ∨ ∃ (t : Term) (rest : List Char), cs = t.text ++ rest ∧
        StopsAt text products rest := by
      refine factor.imp_right fun ⟨f, rest, hf⟩ => ?_
      rw [hf]
      exact term_total (hf ▸ h) fun cs' => shorter hf
    refine ⟨factor, term, term.imp_right fun ⟨t, rest, ht, hstop⟩ => ?_⟩
    rw [ht]
    exact expression_total (ht ▸ h) hstop fun cs' => shorter ht

/-! ## Parses -/

/-- The text of an expression is read to its end. -/
theorem reads_start (e : Expression) (h : e.text = text.toList) :
    ReadsAt text (.node 13) text.toList (.ok (.int (e.value % modulus : Nat)) (place text [])) := by
  have hnil : [] <:+ text.toList := List.nil_suffix
  have htext : e.text ++ [] <:+ text.toList := by simp [h]
  have he := Chain.reads (e.readsParts htext (stopsAt_of_ne sums hnil (by simp))
    (stopsAt_of_ne products hnil (by simp)))
  rw [List.append_nil, h] at he
  have hend : ReadsAt text (.node 11) [] _ := .endOfInput rfl
  rw [Content.ending_place, if_pos List.isEmpty_nil] at hend
  have hrow : ReadsAt text (.node 12) text.toList _ := .sequence rfl (.cons he (.cons hend .nil))
  have hstart : ReadsAt text (.node 13) text.toList _ := .map rfl hrow
  exact hstart

/-- Any other text fails: it is refused, or something is left of it. -/
theorem fails_start (h : ¬∃ e : Expression, e.text = text.toList) :
    ReadsAt text (.node 13) text.toList .fail := by
  rcases (total (List.suffix_refl text.toList)).expression with hr | ⟨e, rest, hcs, hp, ht⟩
  · have hrow : ReadsAt text (.node 12) text.toList (Verdict.fail.map .list) :=
      .sequence rfl (.fail hr.expression)
    exact .mapFail rfl hrow
  · have he := Chain.reads (e.readsParts (hcs ▸ List.suffix_refl _) hp ht)
    rw [← hcs] at he
    have hrest : ¬rest.isEmpty := fun hn => h ⟨e, by simpa [List.isEmpty_iff.mp hn] using hcs.symm⟩
    have hend : ReadsAt text (.node 11) rest _ := .endOfInput rfl
    rw [Content.ending_place, if_neg hrest] at hend
    have hrow : ReadsAt text (.node 12) text.toList ((Verdict.fail.map (_ :: ·)).map .list) :=
      .sequence rfl (.cons he (.fail hend))
    exact .mapFail rfl hrow

theorem parse_compiled (log : List Log.Record) (content : Content) :
    Language.parse { grammar, graph := compiled, log } content =
      (compiled.parse (.node 13) content 0).1.toExcept :=
  rfl

/-- The text of an expression is parsed to the remainder of its value. -/
theorem parse_text (log : List Log.Record) {e : Expression}
    (h : e.text = text.toList) :
    Language.parse { grammar, graph := compiled, log } (.ofValue (.text text)) =
      .ok (.int (e.value % modulus : Nat)) := by
  have hr := reads_start e h
  rw [ReadsAt, place_self] at hr
  rw [parse_compiled, hr.toExcept_parse]

/-- Any other text is parsed to the failure marker. -/
theorem parse_failure (log : List Log.Record) (h : ¬∃ e : Expression, e.text = text.toList) :
    Language.parse { grammar, graph := compiled, log } (.ofValue (.text text)) = .ok .failure := by
  have hr := fails_start h
  rw [ReadsAt, place_self] at hr
  rw [parse_compiled, hr.toExcept_parse_fail]

/-- To parse a text with the arithmetic grammar never raises a fault. A text that the grammar does
not derive gives the failure marker, and any other has one tree only and gives the remainder of its
value. -/
theorem parse_arithmetic :
    ∃ l, GrammarKind.arithmetic.language = .ok l ∧ ∀ text : String,
      (∃ v, l.parse (.ofValue (.text text)) = .ok v) ∧
      (l.parse (.ofValue (.text text)) = .ok .failure ↔
        ¬∃ e : Expression, e.text = text.toList) ∧
      ∀ e : Expression, e.text = text.toList →
        (∀ e' : Expression, e'.text = text.toList → e' = e) ∧
        l.parse (.ofValue (.text text)) = .ok (.int (e.value % 0xFFFF : Nat)) ∧
        e.value % 0xFFFF ≤ 0xFFFE := by
  obtain ⟨log, hl⟩ := language_eq
  refine ⟨_, hl, fun text => ?_⟩
  refine ⟨?_, ⟨?_, parse_failure log⟩, fun e h => ⟨fun e' h' => ?_, parse_text log h, ?_⟩⟩
  · by_cases h : ∃ e : Expression, e.text = text.toList
    · obtain ⟨e, he⟩ := h
      exact ⟨_, parse_text log he⟩
    · exact ⟨_, parse_failure log h⟩
  · rintro hf ⟨e, he⟩
    rw [parse_text log he] at hf
    cases hf
  · exact Expression.text_injective (h'.trans h.symm)
  · omega

end ParserGraph.Arithmetic
