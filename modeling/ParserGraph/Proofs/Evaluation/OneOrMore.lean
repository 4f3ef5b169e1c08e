import ParserGraph.Proofs.Evaluation.Returning

/-!
# One match or more

`Graph.plus` builds a map over a sequence over a repetition, and in it the first match is not a round
of the repetition: it goes through other nodes, and is not checked to have moved on. Still what such
a node reads is what the repetition by itself reads, but for a failure in place of no results
(`ReadsRounds.reads_plus`, `exists_rounds_of_reads_plus`): a first match that has not moved on comes
again as the first round, which is checked. So parses of the two end together (`plus_iff_star`).
-/

namespace ParserGraph

/-- No results are a failure. -/
def Verdict.oneOrMore : Verdict (List Value) → Verdict (List Value)
  | ok [] _ => fail
  | e => e

namespace Graph

variable {g : Graph} {content : Content} {o r m : Object} {i : Int}

/-- A node as `star` builds it. -/
def IsStar (g : Graph) (o r : Object) : Prop :=
  g.parser? r = some (.repetition o)

/-- A node as `plus` builds it. -/
def IsPlus (g : Graph) (o m : Object) : Prop :=
  ∃ both more, g.parser? m = some (.map both .oneOrMore) ∧
    g.parser? both = some (.sequence [o, more]) ∧ g.IsStar o more

/-! ## Building -/

theorem star_eq (h : (g.parser? o).isSome) :
    star o g = .ok (g.size, g.push (.repetition o)) := by
  obtain ⟨p, hp⟩ := Option.isSome_iff_exists.mp h
  exact operand_bind hp _

/-- Every node stays as it is, and three are made. -/
theorem exists_plus (h : (g.parser? o).isSome) :
    ∃ id g', plus o g = .ok (id, g') ∧ g'.IsPlus o (.node id) ∧
      ∀ o' p, g.parser? o' = some p → g'.parser? o' = some p := by
  set g₁ := g.push (.repetition o)
  set g₂ := g₁.push (.sequence [o, .node g.size])
  set g₃ := g₂.push (.map (.node g₁.size) .oneOrMore)
  have hplus : plus o g = .ok (g₂.size, g₃) := by
    show (star o g >>= fun r => (add (.sequence [o, .node r.1]) >>= fun both =>
      add (.map (.node both) .oneOrMore)) r.2) = _
    rw [star_eq h]
    rfl
  refine ⟨g₂.size, g₃, hplus, ⟨.node g₁.size, .node g.size, ?_, ?_, ?_⟩, fun o' p hp => ?_⟩
  · exact parser?_push_self ..
  · exact parser?_push_of_some (parser?_push_self ..) _
  · exact parser?_push_of_some (parser?_push_of_some (parser?_push_self ..) _) _
  · exact parser?_push_of_some (parser?_push_of_some (parser?_push_of_some hp _) _) _

/-! ## Reading -/

theorem ReadsRounds.reads_plus {e : Verdict (List Value)} (h : g.ReadsRounds content o i e)
    (hm : g.IsPlus o m) : g.Reads content m i (e.oneOrMore.map .list) := by
  obtain ⟨both, more, hm, hboth, hmore⟩ := hm
  cases h with
  | last ho => exact .mapFail hm (.sequence hboth (.fail ho))
  | @more _ _ j v e ho hj hr =>
    have hrest : g.Reads content more j (e.map .list) := .repetition hmore hr
    cases e with
    | ok vs k => exact .map hm (.sequence hboth (.cons ho (.cons hrest .nil)))
    | fail => exact .mapFail hm (.sequence hboth (.cons ho (.fail hrest)))
    | error f => exact .mapError hm (.sequence hboth (.cons ho (.error hrest)))
  | idle ho =>
    have hrest : g.Reads content more i (.error (g.raise (.zeroWidthRepetition o))) :=
      .repetition hmore (.idle ho)
    exact .mapError hm (.sequence hboth (.cons ho (.error hrest)))
  | error ho => exact .mapError hm (.sequence hboth (.error ho))

theorem exists_rounds_of_reads_plus {e : Verdict Value} (h : g.Reads content m i e)
    (hm : g.IsPlus o m) : ∃ e', g.ReadsRounds content o i e' := by
  obtain ⟨both, more, hm, hboth, hmore⟩ := hm
  obtain ⟨_, hb⟩ := h.of_map hm
  obtain ⟨_, hrow, -⟩ := (reads_sequence_iff hboth).mp hb
  cases hrow with
  | fail ho => exact ⟨_, .last ho⟩
  | error ho => exact ⟨_, .error ho⟩
  | @cons _ _ _ j v _ ho hrest =>
    by_cases hj : j = i
    · exact ⟨_, .idle (hj ▸ ho)⟩
    · obtain ⟨e', hmo⟩ : ∃ e', g.Reads content more j e' := by
        cases hrest with
        | cons h _ | fail h | error h => exact ⟨_, h⟩
      obtain ⟨e', hr, -⟩ := (reads_repetition_iff hmore).mp hmo
      exact ⟨_, .more ho hj hr⟩

theorem ReadsRounds.ne_fail {i : Int} {e : Verdict (List Value)} :
    g.ReadsRounds content o i e → e ≠ .fail
  | .last _ | .idle _ | .error _ => nofun
  | .more (e := e) _ _ h => by
    have he := ReadsRounds.ne_fail h
    cases e with
    | fail => exact absurd rfl he
    | ok | error => nofun

/-- There are no results only if the first round fails. -/
theorem ReadsRounds.of_nil {j : Int} (h : g.ReadsRounds content o i (.ok [] j)) :
    g.Reads content o i .fail ∧ j = i := by
  generalize he : Verdict.ok ([] : List Value) j = e at h
  cases h with
  | last ho => cases he; exact ⟨ho, rfl⟩
  | @more _ _ _ _ e => cases e <;> cases he
  | idle | error => cases he

/-- A mismatch goes back to the start: the sequence within does. -/
theorem IsPlus.parse_mismatch (hm : g.IsPlus o m) (ho : g.Reads content o i .fail) :
    ∃ s, g.parse m content i = (.mismatch, s) ∧ s.position = i := by
  obtain ⟨both, more, hm, hboth, -⟩ := hm
  have hb : g.Reads content both i .fail := .sequence hboth (.fail ho)
  exact ((goesBack_sequence hboth i).map hm hb).parse (.mapFail hm hb)

/-! ## Parses -/

/-- How parses of a repetition and of one or more end together, from a position. -/
inductive EndTogether (i : Int) : Outcome × Progress → Outcome × Progress → Prop
  | matched (v : Value) (vs : List Value) {s s' : Progress} (hs : s'.position = s.position) :
    EndTogether i (.matched (.list (v :: vs)), s) (.matched (.list (v :: vs)), s')
  | mismatch {s s' : Progress} (hs : s.position = i) (hs' : s'.position = i) :
    EndTogether i (.matched (.list []), s) (.mismatch, s')
  | raised (f : Fault) (s s' : Progress) : EndTogether i (.raised f, s) (.raised f, s')
  | givenUp (s s' : Progress) : EndTogether i (.givenUp, s) (.givenUp, s')

theorem endTogether_parse (hr : g.IsStar o r) (hm : g.IsPlus o m) (content : Content) (i : Int) :
    EndTogether i (g.parse r content i) (g.parse m content i) := by
  by_cases h : ∃ e, g.ReadsRounds content o i e
  · obtain ⟨e, he⟩ := h
    have hstar : g.Reads content r i (e.map .list) := .repetition hr he
    have hplus := he.reads_plus hm
    cases e with
    | fail => exact absurd rfl he.ne_fail
    | error f =>
      obtain ⟨s, hs⟩ := eq_raised_of_ofRun? (ofRun?_parse_iff.mpr hstar)
      obtain ⟨s', hs'⟩ := eq_raised_of_ofRun? (ofRun?_parse_iff.mpr hplus)
      rw [hs, hs']
      exact .raised f s s'
    | ok vs j =>
      obtain ⟨s, hs, hj⟩ := eq_matched_of_ofRun? (ofRun?_parse_iff.mpr hstar)
      rw [hs]
      cases vs with
      | cons v vs =>
        obtain ⟨s', hs', hj'⟩ := eq_matched_of_ofRun? (ofRun?_parse_iff.mpr hplus)
        rw [hs']
        exact .matched v vs (hj'.trans hj.symm)
      | nil =>
        obtain ⟨ho, rfl⟩ := he.of_nil
        obtain ⟨s', hs', hj'⟩ := hm.parse_mismatch ho
        rw [hs']
        exact .mismatch hj hj'
  · have hstar : ∀ e, ¬ g.Reads content r i e := fun e he =>
      h (((reads_repetition_iff hr).mp he).imp fun _ => And.left)
    have hplus : ∀ e, ¬ g.Reads content m i e := fun e he => h (exists_rounds_of_reads_plus he hm)
    obtain ⟨s, hs⟩ := parse_givenUp_of_not_reads hstar
    obtain ⟨s', hs'⟩ := parse_givenUp_of_not_reads hplus
    rw [hs, hs']
    exact .givenUp s s'

/-- What the end of a repetition, from a position, says of the end of one or more, and the other way
round. -/
structure EndsByStar (i : Int) (star plus : Outcome × Progress) : Prop where
  matched_iff (v : Value) (j : Int) : (∃ s, plus = (.matched v, s) ∧ s.position = j) ↔
    ∃ vs, v = .list vs ∧ vs ≠ [] ∧ ∃ s, star = (.matched (.list vs), s) ∧ s.position = j
  mismatch_iff : (∃ s, plus = (.mismatch, s) ∧ s.position = i) ↔
    ∃ s, star = (.matched (.list []), s)
  position_eq {s : Progress} : plus = (.mismatch, s) → s.position = i
  position_eq_nil {s : Progress} : star = (.matched (.list []), s) → s.position = i
  raised_iff (f : Fault) : (∃ s, plus = (.raised f, s)) ↔ ∃ s, star = (.raised f, s)
  givenUp_iff : plus.1 = .givenUp ↔ star.1 = .givenUp

theorem EndTogether.endsByStar {a b : Outcome × Progress} (h : EndTogether i a b) :
    EndsByStar i a b := by
  cases h with
  | matched v vs hs =>
    refine ⟨fun w j => ⟨?_, ?_⟩, by simp, by simp, by simp, by simp, by simp⟩
    · rintro ⟨s, h, rfl⟩
      cases h
      exact ⟨v :: vs, rfl, List.cons_ne_nil v vs, _, rfl, hs.symm⟩
    · rintro ⟨_, rfl, -, s, h, rfl⟩
      cases h
      exact ⟨_, rfl, hs⟩
  | mismatch hs hs' => constructor <;> simp [hs, hs']
  | raised f s s' => constructor <;> simp
  | givenUp s s' => constructor <;> simp

/-- Both operators build their nodes around any node, and wherever the two stand in a graph their
parses decide each other. -/
theorem plus_iff_star (o : Object) :
    (∀ g : Graph, (g.parser? o).isSome → ∃ r m g₁ g₂, star o g = .ok (r, g₁) ∧
      plus o g₁ = .ok (m, g₂) ∧ g₂.IsStar o (.node r) ∧ g₂.IsPlus o (.node m)) ∧
    ∀ (g : Graph) (r m : Object), g.IsStar o r → g.IsPlus o m → ∀ (content : Content) (i : Int),
      EndsByStar i (g.parse r content i) (g.parse m content i) := by
  refine ⟨fun g h => ?_, fun g r m hr hm content i =>
    (endTogether_parse hr hm content i).endsByStar⟩
  obtain ⟨p, hp⟩ := Option.isSome_iff_exists.mp h
  have h₁ : ((g.push (.repetition o)).parser? o).isSome := by
    rw [parser?_push_of_some hp]
    rfl
  obtain ⟨m, g₂, hplus, hm, hkeep⟩ := exists_plus h₁
  exact ⟨g.size, m, _, g₂, star_eq h, hplus, hkeep _ _ (parser?_push_self ..), hm⟩

/-- A digit, or nothing at all, which both kinds of repetition have to refuse. -/
def digitOrNothing : Graph where
  nodes := #[
    { parser := .alternation (.node 1) (.node 2) },
    { parser := .literal (.character '0') (.character '9') },
    { parser := .repetition (.node 1) },
    { parser := .repetition (.node 0) },
    { parser := .sequence [.node 0, .node 3] },
    { parser := .map (.node 4) .oneOrMore }]

theorem digitOrNothing_plus :
    (digitOrNothing.parser? (.node 0)).isSome ∧
      (∃ r m g₁ g₂, star (.node 0) digitOrNothing = .ok (r, g₁) ∧ plus (.node 0) g₁ = .ok (m, g₂) ∧
        g₂.IsStar (.node 0) (.node r) ∧ g₂.IsPlus (.node 0) (.node m)) ∧
      digitOrNothing.IsStar (.node 0) (.node 3) ∧ digitOrNothing.IsPlus (.node 0) (.node 5) ∧
      ∃ s, digitOrNothing.parse (.node 5) (.ofValue (.text "4x")) 0 =
        (.raised (.defect (.zeroWidthRepetition (.node 0))), s) := by
  have hr : digitOrNothing.IsStar (.node 0) (.node 3) := rfl
  have hm : digitOrNothing.IsPlus (.node 0) (.node 5) := ⟨.node 4, .node 3, rfl, rfl, rfl⟩
  have h := (plus_iff_star (.node 0)).2 digitOrNothing _ _ hr hm (.ofValue (.text "4x")) 0
  exact ⟨rfl, (plus_iff_star (.node 0)).1 digitOrNothing rfl, hr, hm,
    (h.raised_iff _).mpr ⟨_, rfl⟩⟩

end Graph

end ParserGraph
