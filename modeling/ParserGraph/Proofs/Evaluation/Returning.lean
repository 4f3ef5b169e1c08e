import ParserGraph.Proofs.Evaluation.Positional
import ParserGraph.Proofs.Graph.Reachability

/-!
# Where a mismatch leaves the position

What an object reads says nothing of the position after a mismatch, as a literal moves past an
element that is not in its range. A sequence goes back to where it started (`goesBack_sequence`), and
so does whatever leaves the mismatch to one: a map of it, or an alternation that has it last. Then a
parse that fails ends where it began (`GoesBack.parse`).

If no transform turns a match into a mismatch, this is all there is to it: a mismatch is one past its
start if there was an element and the object leaves the mismatch to a literal, else at its start
(`parse_position`).
-/

namespace ParserGraph.Graph

variable {g : Graph} {content : Content} {o a b : Object} {i : Int}

/-- A run from a position that ends in a mismatch goes back to the position. -/
def GoesBack (g : Graph) (content : Content) (o : Object) (i : Int) : Prop :=
  ∀ depth s s', s.position = i → g.evaluate content depth o s = (.mismatch, s') → s'.position = i

/-- A run within a depth is that of the parser, so there is one. -/
theorem goesBack_of_attempt {p : Parser} (hp : g.parser? o = some p)
    (h : ∀ depth s s', s.position = i →
      p.attempt g.raise (g.evaluate content depth) content s = (.mismatch, s') → s'.position = i) :
    g.GoesBack content o i := by
  intro depth s s' hs hr
  cases depth with
  | zero => cases hr
  | succ depth =>
    rw [evaluate_succ, hp] at hr
    exact h depth s s' hs hr

theorem position_of_sequence {run : Object → Attempt} {start : Int} {os : List Object}
    {results : List Value} {s s' : Progress}
    (h : Attempt.sequence run start os results s = (.mismatch, s')) : s'.position = start := by
  induction os generalizing results s with
  | nil => cases h
  | cons o os ih =>
    simp only [Attempt.sequence] at h
    split at h
    · exact ih h
    · cases h
      rfl
    · rename_i hne
      exact absurd h (hne s')

theorem goesBack_sequence {os : List Object} (hp : g.parser? o = some (.sequence os)) (i : Int) :
    g.GoesBack content o i :=
  goesBack_of_attempt hp fun _ _ _ hs hr => (position_of_sequence hr).trans hs

/-- A map leaves the position to the object that it transforms, if that does not match. -/
theorem GoesBack.map {t : Transform} (ha : g.GoesBack content a i)
    (hp : g.parser? o = some (.map a t)) (hf : g.Reads content a i .fail) :
    g.GoesBack content o i := by
  refine goesBack_of_attempt hp fun depth s s' hs hr => ?_
  simp only [Parser.attempt, Attempt.map] at hr
  split at hr
  · rename_i v s₁ hra
    have hread := reads_of_evaluate (e := .ok v s₁.position) (congrArg Verdict.ofRun? hra)
    rw [hs] at hread
    cases hf.unique hread
  · exact ha depth s s' hs hr

/-- An alternation goes back before its second object, which then decides. -/
theorem GoesBack.second (hb : g.GoesBack content b i)
    (hp : g.parser? o = some (.alternation a b)) : g.GoesBack content o i := by
  refine goesBack_of_attempt hp fun depth s s' hs hr => ?_
  simp only [Parser.attempt, Attempt.alternation] at hr
  split at hr
  · rename_i s₁ _
    exact hb depth (s₁.moveTo s.position) s' hs hr
  · rename_i hne
    exact absurd hr (hne s')

/-- A parse that fails ends where it began. -/
theorem GoesBack.parse (h : g.GoesBack content o i) (hf : g.Reads content o i .fail) :
    ∃ s, g.parse o content i = (.mismatch, s) ∧ s.position = i := by
  obtain ⟨s, hr⟩ := eq_mismatch_of_ofRun? (ofRun?_parse_iff.mpr hf)
  exact ⟨s, hr, h _ _ s rfl hr⟩

/-! ## Every kind of parser -/

/-- The object leaves its mismatches to a literal: it is one, or a map of one that does, or an
alternation whose second object does. -/
inductive EndsInLiteral (g : Graph) : Object → Prop
  | literal {o : Object} {lower upper : Value} :
    g.parser? o = some (.literal lower upper) → EndsInLiteral g o
  | map {o a : Object} {t : Transform} :
    g.parser? o = some (.map a t) → EndsInLiteral g a → EndsInLiteral g o
  | second {o a b : Object} :
    g.parser? o = some (.alternation a b) → EndsInLiteral g b → EndsInLiteral g o

theorem endsInLiteral_iff {p : Parser} (hp : g.parser? o = some p) :
    g.EndsInLiteral o ↔ match p with
      | .literal .. => True
      | .map a _ => g.EndsInLiteral a
      | .alternation _ b => g.EndsInLiteral b
      | _ => False := by
  constructor
  · intro h
    cases h with
    | literal h => cases hp.symm.trans h; trivial
    | map h ha => cases hp.symm.trans h; exact ha
    | second h hb => cases hp.symm.trans h; exact hb
  · intro h
    cases p with
    | literal lower upper => exact .literal hp
    | map a t => exact .map hp h
    | alternation a b => exact .second hp h
    | sequence | repetition | endOfInput | forward => exact h.elim

/-- No transform that the object reaches gives the failure marker for anything that it is applied
to. -/
def KeepsMatches (g : Graph) (content : Content) (o : Object) : Prop :=
  ∀ o' a t, g.Reaches o o' → g.parser? o' = some (.map a t) →
    ∀ i v j, g.Reads content a i (.ok v j) → t.apply v ≠ .ok .failure

theorem KeepsMatches.child (h : g.KeepsMatches content o) {p : Parser} (hp : g.parser? o = some p)
    (ha : a ∈ p.children) : g.KeepsMatches content a :=
  fun o' b t hr => h o' b t (.head ⟨p, hp, ha⟩ hr)

/-- A mismatch from one position ends at the other: past an element that a literal refused, or else
where it started. -/
def Leaves (g : Graph) (L : Nat) (o : Object) (i j : Int) : Prop :=
  j = i + 1 ∧ i < L ∧ g.EndsInLiteral o ∨ j = i ∧ ¬ (i < L ∧ g.EndsInLiteral o)

theorem le_of_read_none {L : Nat} (hL : content.size? = some L)
    (h : content.read i = .ok none) : L ≤ i := by
  cases content with
  | indexed elements =>
    obtain rfl : elements.size = L := Option.some.inj hL
    simp only [Content.read] at h
    split at h
    · assumption
    · split at h
      · rw [Except.ok.injEq, Array.getElem?_eq_none_iff] at h
        omega
      · split at h
        · rw [Except.ok.injEq, Array.getElem?_eq_none_iff] at h
          omega
        · cases h
  | keyed size =>
    obtain rfl : size = L := Option.some.inj hL
    simp only [Content.read] at h
    split at h
    · assumption
    · cases h
  | unsized => cases hL

/-- A literal that does not match has moved past the element, if there was one. -/
theorem position_of_literal {L : Nat} (hL : content.size? = some L) {lower upper : Value}
    {s s' : Progress} (h : Attempt.literal content lower upper s = (.mismatch, s')) :
    s'.position = s.position + 1 ∧ s.position < L ∨ s'.position = s.position ∧ L ≤ s.position := by
  simp only [Attempt.literal] at h
  split at h
  · cases h
  · rename_i hr
    cases h
    exact .inr ⟨rfl, le_of_read_none hL hr⟩
  · rename_i v hr
    have hlt : s.position < L := by simpa [hL] using Content.lt_size_of_read hr
    have hs : s' = s.moveTo (s.position + 1) := by
      split at h
      · exact (Prod.mk.inj h).2.symm
      · split at h
        · cases h
        · exact (Prod.mk.inj h).2.symm
        · cases h
    exact .inl ⟨hs ▸ rfl, hlt⟩

theorem repetition_ne_mismatch {raise : Defect → Fault} {run : Object → Attempt} {rounds : Nat}
    {results : List Value} {s s' : Progress} : Attempt.repetition raise run o rounds results s ≠ (.mismatch, s') := by
  induction rounds generalizing results s with
  | zero => simp [Attempt.repetition]
  | succ rounds ih =>
    simp only [Attempt.repetition]
    split
    · split
      · simp
      · exact ih
    · simp
    · rename_i hne
      exact fun h => hne s' h

theorem ofExcept_ne_mismatch {r : Except Fault Value} (h : r ≠ .ok .failure) :
    Outcome.ofExcept r ≠ .mismatch := by
  rcases r with f | v
  · nofun
  · cases v with
    | failure => exact absurd rfl h
    | _ => nofun

/-- By induction on the depth: what a mismatch is left to runs one level below, from the same
position. -/
theorem leaves_of_mismatch {L : Nat} (hL : content.size? = some L) {depth : Nat} {s s' : Progress}
    (hk : g.KeepsMatches content o) (h : g.evaluate content depth o s = (.mismatch, s')) :
    g.Leaves L o s.position s'.position := by
  induction depth generalizing o s with
  | zero => cases h
  | succ depth ih =>
    rw [evaluate_succ] at h
    cases hp : g.parser? o with
    | none => rw [hp] at h; cases h
    | some p =>
      rw [hp] at h
      rw [Leaves, endsInLiteral_iff hp]
      cases p with
      | literal lower upper =>
        rcases position_of_literal hL h with ⟨hs, hlt⟩ | ⟨hs, hle⟩
        · exact .inl ⟨hs, hlt, trivial⟩
        · exact .inr ⟨hs, fun hn => absurd hn.1 (Int.not_lt.mpr hle)⟩
      | sequence os => exact .inr ⟨position_of_sequence h, And.right⟩
      | alternation a b =>
        simp only [Parser.attempt, Attempt.alternation] at h
        split at h
        · rename_i s₁ _
          exact ih (s := s₁.moveTo s.position) (hk.child hp (by simp [Parser.children])) h
        · rename_i hne
          exact absurd h (hne s')
      | repetition a => exact absurd h repetition_ne_mismatch
      | endOfInput =>
        simp only [Parser.attempt, Attempt.endOfInput] at h
        split at h <;> cases h
        exact .inr ⟨rfl, And.right⟩
      | map a t =>
        simp only [Parser.attempt, Attempt.map] at h
        split at h
        · rename_i v s₁ hra
          have hv : t.apply v ≠ .ok .failure :=
            hk o a t .refl hp s.position v s₁.position
              (reads_of_evaluate (congrArg Verdict.ofRun? hra))
          exact absurd (congrArg Prod.fst h) (ofExcept_ne_mismatch hv)
        · exact ih (hk.child hp (by simp [Parser.children])) h
      | forward name target => cases h

/-- A parse that is not given up ends between its start and the end of the content. If it does not
match, it ends one past its start exactly where there was an element and the object leaves its
mismatches to a literal, and at its start exactly everywhere else. -/
theorem parse_position {L : Nat} (hL : content.size? = some L) {p : Int} (h₀ : 0 ≤ p) (hp : p ≤ L)
    (hk : g.KeepsMatches content o) {out : Outcome} {s : Progress}
    (h : g.parse o content p = (out, s)) (hout : out ≠ .givenUp) :
    (0 ≤ s.position ∧ s.position ≤ L) ∧ p ≤ s.position ∧
      (out = .mismatch →
        (s.position = p + 1 ↔ p < L ∧ g.EndsInLiteral o) ∧
          (s.position = p ↔ ¬ (p < L ∧ g.EndsInLiteral o))) := by
  have hb : p ≤ s.position ∧ s.position ≤ L := by
    have hr : g.evaluate content (g.depthLimit content p) o { position := p } = (out, s) := h
    have hn : (g.evaluate content (g.depthLimit content p) o { position := p }).1 ≠ .givenUp := by
      rwa [hr]
    have hb := g.evaluate_bounds content hn
    rw [hr] at hb
    simp only [Content.remaining, hL, Option.getD_some] at hb
    omega
  refine ⟨⟨h₀.trans hb.1, hb.2⟩, hb.1, ?_⟩
  rintro rfl
  have hl : g.Leaves L o p s.position := leaves_of_mismatch hL hk h
  rcases hl with ⟨hs, hn⟩ | ⟨hs, hn⟩
  · exact ⟨iff_of_true hs hn, iff_of_false (by omega) (not_not_intro hn)⟩
  · exact ⟨iff_of_false (by omega) hn, iff_of_true hs hn⟩

/-- A digit within parentheses or by itself: a cycle, and a map of a literal that is last. -/
def parentheses : Graph where
  nodes := #[
    { parser := .alternation (.node 1) (.node 2) },
    { parser := .sequence [.node 3, .node 0, .node 4] },
    { parser := .map (.node 5) .wrap },
    { parser := .literal (.character '(') (.character '(') },
    { parser := .literal (.character ')') (.character ')') },
    { parser := .literal (.character '0') (.character '9') }]

theorem parentheses_position :
    (Content.ofValue (.text "((7)")).size? = some 4 ∧ (0 : Int) ≤ 0 ∧ (0 : Int) ≤ (4 : Nat) ∧
      parentheses.KeepsMatches (.ofValue (.text "((7)")) (.node 0) ∧ Outcome.mismatch ≠ .givenUp ∧
      parentheses.EndsInLiteral (.node 0) ∧
      ∃ s, parentheses.parse (.node 0) (.ofValue (.text "((7)")) 0 = (.mismatch, s) ∧
        s.position = 0 + 1 := by
  have hk : parentheses.KeepsMatches (.ofValue (.text "((7)")) (.node 0) := by
    intro o' a t _ hp i v j _
    obtain ⟨id, rfl⟩ := exists_of_parser? hp
    rcases id with _ | _ | _ | _ | _ | _ | id <;> cases hp
    exact fun h => by cases h
  have he : parentheses.EndsInLiteral (.node 0) := .second rfl (.map rfl (.literal rfl))
  have hr : parentheses.parse (.node 0) (.ofValue (.text "((7)")) 0 = (.mismatch, _) := rfl
  have hn : Outcome.mismatch ≠ .givenUp := by simp
  exact ⟨rfl, by decide, by decide, hk, hn, he, _, hr,
    ((parse_position rfl (by decide) (by decide) hk hr hn).2.2 rfl).1.mpr ⟨by decide, he⟩⟩

end ParserGraph.Graph
