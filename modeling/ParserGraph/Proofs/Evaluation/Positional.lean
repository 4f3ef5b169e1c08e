import ParserGraph.Proofs.Evaluation.Limit

/-!
# Reading by positions

What a parser reads can be said without a state: from a position it gives a value and the position
after it, or fails, or is in error. `Graph.Reads` says so for the nodes of a graph. A failure has no
position there, and an error is never turned into a failure.

An evaluation has one position that all its runs share and that a failing run may leave anywhere.
Still it computes exactly this relation (`reads_of_evaluate`, `Reads.evaluatesTo`): whatever goes on
after a failure first goes back to where it started. `parse_iff_reads` states this of a whole parse.
-/

namespace ParserGraph

/-- What a reading without a state ends in. -/
inductive Verdict (α : Type)
  /-- A result, and the position to go on from. -/
  | ok (result : α) (next : Int)
  | fail
  | error (fault : Fault)

namespace Verdict

variable {α β γ : Type}

def map (f : α → β) : Verdict α → Verdict β
  | ok a next => ok (f a) next
  | fail => fail
  | error fault => error fault

theorem map_map (f : α → β) (h : β → γ) (e : Verdict α) : (e.map f).map h = e.map (h ∘ f) := by
  cases e <;> rfl

/-- The result of a transform: the failure marker is a failure. -/
def ofExcept (r : Except Fault Value) (next : Int) : Verdict Value :=
  match r with
  | .ok v => if v.isFailure then fail else ok v next
  | .error f => error f

/-- What can be seen of the end of a run, unless it is given up. The position after a mismatch
cannot. -/
def ofRun? : Outcome × Progress → Option (Verdict Value)
  | (.matched v, s) => some (ok v s.position)
  | (.mismatch, _) => some fail
  | (.raised f, _) => some (error f)
  | (.givenUp, _) => none

end Verdict

/-- The element at a position, if there is one and it lies within a range. An element that is the
failure marker counts as no element. -/
def Content.element (content : Content) (lower upper : Value) (i : Int) : Verdict Value :=
  match content.read i with
  | .error f => .error f
  | .ok none => .fail
  | .ok (some v) =>
    if v.isFailure then .fail
    else match Value.between lower upper v with
      | .ok true => .ok v (i + 1)
      | .ok false => .fail
      | .error f => .error f

/-- Nothing, at the end of the content. -/
def Content.ending (content : Content) (i : Int) : Verdict Value :=
  match content.atEnd i with
  | .ok true => .ok .null i
  | .ok false => .fail
  | .error f => .error f

mutual

/-- What an object of a graph reads from a position of a content. -/
inductive Graph.Reads (g : Graph) (content : Content) : Object → Int → Verdict Value → Prop
  | literal {o : Object} {lower upper : Value} {i : Int} :
    g.parser? o = some (.literal lower upper) → Reads g content o i (content.element lower upper i)
  | sequence {o : Object} {os : List Object} {i : Int} {e : Verdict (List Value)} :
    g.parser? o = some (.sequence os) → ReadsInOrder g content os i e →
    Reads g content o i (e.map .list)
  | first {o a b : Object} {i : Int} {e : Verdict Value} :
    g.parser? o = some (.alternation a b) → Reads g content a i e → e ≠ .fail →
    Reads g content o i e
  | second {o a b : Object} {i : Int} {e : Verdict Value} :
    g.parser? o = some (.alternation a b) → Reads g content a i .fail → Reads g content b i e →
    Reads g content o i e
  | repetition {o a : Object} {i : Int} {e : Verdict (List Value)} :
    g.parser? o = some (.repetition a) → ReadsRounds g content a i e →
    Reads g content o i (e.map .list)
  | endOfInput {o : Object} {i : Int} :
    g.parser? o = some .endOfInput → Reads g content o i (content.ending i)
  | map {o a : Object} {t : Transform} {i j : Int} {v : Value} :
    g.parser? o = some (.map a t) → Reads g content a i (.ok v j) →
    Reads g content o i (.ofExcept (t.apply v) j)
  | mapFail {o a : Object} {t : Transform} {i : Int} :
    g.parser? o = some (.map a t) → Reads g content a i .fail → Reads g content o i .fail
  | mapError {o a : Object} {t : Transform} {i : Int} {f : Fault} :
    g.parser? o = some (.map a t) → Reads g content a i (.error f) → Reads g content o i (.error f)
  | forward {o : Object} {name : Value} {target : Option NodeId} {i : Int} :
    g.parser? o = some (.forward name target) →
    Reads g content o i (.error (g.raise (.parsedForward name)))
  | noParser {o : Object} {i : Int} :
    g.parser? o = none → Reads g content o i (.error (g.raise (.notAParser o)))

/-- What objects read one after the other, each from the end of the one before. -/
inductive Graph.ReadsInOrder (g : Graph) (content : Content) :
    List Object → Int → Verdict (List Value) → Prop
  | nil {i : Int} : ReadsInOrder g content [] i (.ok [] i)
  | cons {o : Object} {os : List Object} {i j : Int} {v : Value} {e : Verdict (List Value)} :
    Reads g content o i (.ok v j) → ReadsInOrder g content os j e →
    ReadsInOrder g content (o :: os) i (e.map (v :: ·))
  | fail {o : Object} {os : List Object} {i : Int} :
    Reads g content o i .fail → ReadsInOrder g content (o :: os) i .fail
  | error {o : Object} {os : List Object} {i : Int} {f : Fault} :
    Reads g content o i (.error f) → ReadsInOrder g content (o :: os) i (.error f)

/-- What an object reads again and again until it fails, moving on each time. -/
inductive Graph.ReadsRounds (g : Graph) (content : Content) :
    Object → Int → Verdict (List Value) → Prop
  | last {o : Object} {i : Int} : Reads g content o i .fail → ReadsRounds g content o i (.ok [] i)
  | more {o : Object} {i j : Int} {v : Value} {e : Verdict (List Value)} :
    Reads g content o i (.ok v j) → j ≠ i → ReadsRounds g content o j e →
    ReadsRounds g content o i (e.map (v :: ·))
  | idle {o : Object} {i : Int} {v : Value} :
    Reads g content o i (.ok v i) →
    ReadsRounds g content o i (.error (g.raise (.zeroWidthRepetition o)))
  | error {o : Object} {i : Int} {f : Fault} :
    Reads g content o i (.error f) → ReadsRounds g content o i (.error f)

end

open Verdict (ofRun?)

namespace Graph

variable {g : Graph} {content : Content}

/-! ## What is evaluated is read -/

theorem ofRun?_literal (lower upper : Value) (s : Progress) :
    ofRun? (Attempt.literal content lower upper s) =
      some (content.element lower upper s.position) := by
  simp only [Attempt.literal, Content.element]
  repeat' split
  all_goals simp_all [ofRun?, Progress.moveTo]

theorem ofRun?_endOfInput (s : Progress) :
    ofRun? (Attempt.endOfInput content s) = some (content.ending s.position) := by
  simp only [Attempt.endOfInput, Content.ending]
  rcases content.atEnd s.position with h | ⟨⟨⟩⟩ <;> rfl

theorem ofRun?_ofExcept (r : Except Fault Value) (s : Progress) :
    ofRun? (.ofExcept r, s) = some (.ofExcept r s.position) := by
  cases r with
  | error f => rfl
  | ok v =>
    simp only [Outcome.ofExcept, Outcome.ofValue, Verdict.ofExcept]
    split <;> rfl

variable {run : Object → Attempt}

theorem readsInOrder_of_sequence
    (hrun : ∀ {o s e}, ofRun? (run o s) = some e → g.Reads content o s.position e) {start : Int}
    {os : List Object} {results : List Value} {s : Progress} {e : Verdict Value}
    (h : ofRun? (Attempt.sequence run start os results s) = some e) :
    ∃ e', g.ReadsInOrder content os s.position e' ∧
      e = e'.map fun vs => .list (results.reverse ++ vs) := by
  induction os generalizing results s with
  | nil =>
    obtain rfl : _ = e := Option.some.inj h
    exact ⟨_, .nil, by simp [Verdict.map]⟩
  | cons o os ih =>
    simp only [Attempt.sequence] at h
    have ho := @hrun o s
    generalize run o s = r at h ho
    obtain ⟨out, s'⟩ := r
    cases out with
    | matched v =>
      obtain ⟨e', he', rfl⟩ := ih h
      refine ⟨_, .cons (ho rfl) he', ?_⟩
      simp [Verdict.map_map, Function.comp_def]
    | mismatch =>
      obtain rfl : _ = e := Option.some.inj h
      exact ⟨_, .fail (ho rfl), rfl⟩
    | raised f =>
      obtain rfl : _ = e := Option.some.inj h
      exact ⟨_, .error (ho rfl), rfl⟩
    | givenUp => cases h

theorem readsRounds_of_repetition
    (hrun : ∀ {o s e}, ofRun? (run o s) = some e → g.Reads content o s.position e) {o : Object}
    {rounds : Nat} {results : List Value} {s : Progress} {e : Verdict Value}
    (h : ofRun? (Attempt.repetition g.raise run o rounds results s) = some e) :
    ∃ e', g.ReadsRounds content o s.position e' ∧
      e = e'.map fun vs => .list (results.reverse ++ vs) := by
  induction rounds generalizing results s with
  | zero => cases h
  | succ rounds ih =>
    simp only [Attempt.repetition] at h
    have ho := @hrun o s
    generalize run o s = r at h ho
    obtain ⟨out, s'⟩ := r
    cases out with
    | matched v =>
      simp only at h
      split at h
      · obtain rfl : _ = e := Option.some.inj h
        rename_i hs
        exact ⟨_, .idle (hs ▸ ho rfl), rfl⟩
      · obtain ⟨e', he', rfl⟩ := ih h
        rename_i hs
        refine ⟨_, .more (ho rfl) hs he', ?_⟩
        simp [Verdict.map_map, Function.comp_def]
    | mismatch =>
      obtain rfl : _ = e := Option.some.inj h
      exact ⟨_, .last (ho rfl), by simp [Verdict.map, Progress.moveTo]⟩
    | raised f =>
      obtain rfl : _ = e := Option.some.inj h
      exact ⟨_, .error (ho rfl), rfl⟩
    | givenUp => cases h

theorem reads_of_alternation
    (hrun : ∀ {o s e}, ofRun? (run o s) = some e → g.Reads content o s.position e)
    {o a b : Object} (hp : g.parser? o = some (.alternation a b)) {s : Progress} {e : Verdict Value}
    (h : ofRun? (Attempt.alternation run a b s) = some e) : g.Reads content o s.position e := by
  have ha := @hrun a s
  simp only [Attempt.alternation] at h
  generalize run a s = r at h ha
  obtain ⟨out, s'⟩ := r
  cases out with
  | mismatch => exact .second hp (ha rfl) (hrun (s := s'.moveTo s.position) h)
  | matched v => exact .first hp (ha h) (by rintro rfl; cases h)
  | raised f => exact .first hp (ha h) (by rintro rfl; cases h)
  | givenUp => cases h

theorem reads_of_map
    (hrun : ∀ {o s e}, ofRun? (run o s) = some e → g.Reads content o s.position e)
    {o a : Object} {t : Transform} (hp : g.parser? o = some (.map a t)) {s : Progress}
    {e : Verdict Value} (h : ofRun? (Attempt.map run a t s) = some e) :
    g.Reads content o s.position e := by
  have ha := @hrun a s
  simp only [Attempt.map] at h
  generalize run a s = r at h ha
  obtain ⟨out, s'⟩ := r
  cases out with
  | matched v =>
    obtain rfl := Option.some.inj ((ofRun?_ofExcept _ _).symm.trans h)
    have hs : (s'.addNote t.note).position = s'.position := by cases t.note <;> rfl
    rw [hs]
    exact .map hp (ha rfl)
  | mismatch =>
    obtain rfl : _ = e := Option.some.inj h
    exact .mapFail hp (ha rfl)
  | raised f =>
    obtain rfl : _ = e := Option.some.inj h
    exact .mapError hp (ha rfl)
  | givenUp => cases h

/-- What an evaluation of a node ends in is read by it. -/
theorem reads_of_evaluate {depth : Nat} {o : Object} {s : Progress} {e : Verdict Value}
    (h : ofRun? (g.evaluate content depth o s) = some e) : g.Reads content o s.position e := by
  induction depth generalizing o s e with
  | zero => cases h
  | succ depth ih =>
    rw [evaluate_succ] at h
    cases hp : g.parser? o with
    | none =>
      rw [hp] at h
      obtain rfl : _ = e := Option.some.inj h
      exact .noParser hp
    | some p =>
      rw [hp] at h
      cases p with
      | literal lower upper =>
        obtain rfl := Option.some.inj ((ofRun?_literal lower upper s).symm.trans h)
        exact .literal hp
      | sequence os =>
        obtain ⟨e', he', rfl⟩ := readsInOrder_of_sequence ih h
        exact .sequence hp he'
      | alternation a b => exact reads_of_alternation ih hp h
      | repetition a =>
        obtain ⟨e', he', rfl⟩ := readsRounds_of_repetition ih h
        exact .repetition hp he'
      | endOfInput =>
        obtain rfl := Option.some.inj ((ofRun?_endOfInput s).symm.trans h)
        exact .endOfInput hp
      | map a t => exact reads_of_map ih hp h
      | forward name target =>
        obtain rfl : _ = e := Option.some.inj h
        exact .forward hp

/-! ## What is read is evaluated -/

/-- Every depth from some depth on is enough to evaluate an object to a verdict, whatever the
notes. -/
def EvaluatesTo (g : Graph) (content : Content) (o : Object) (i : Int) (e : Verdict Value) : Prop :=
  ∃ enough, ∀ depth ≥ enough, ∀ s, s.position = i →
    ofRun? (g.evaluate content depth o s) = some e

theorem ne_givenUp_of_ofRun? {r : Outcome × Progress} {e : Verdict Value} (h : ofRun? r = some e) :
    r.1 ≠ .givenUp := by
  rcases r with ⟨_ | _ | _ | _, s⟩
  case givenUp => cases h
  all_goals simp

theorem eq_matched_of_ofRun? {r : Outcome × Progress} {v : Value} {j : Int}
    (h : ofRun? r = some (.ok v j)) : ∃ s, r = (.matched v, s) ∧ s.position = j := by
  rcases r with ⟨_ | _ | _ | _, s⟩ <;> cases h
  exact ⟨s, rfl, rfl⟩

theorem eq_mismatch_of_ofRun? {r : Outcome × Progress} (h : ofRun? r = some .fail) :
    ∃ s, r = (.mismatch, s) := by
  rcases r with ⟨_ | _ | _ | _, s⟩ <;> cases h
  exact ⟨s, rfl⟩

theorem eq_raised_of_ofRun? {r : Outcome × Progress} {f : Fault} (h : ofRun? r = some (.error f)) :
    ∃ s, r = (.raised f, s) := by
  rcases r with ⟨_ | _ | _ | _, s⟩ <;> cases h
  exact ⟨s, rfl⟩

/-- An object that is evaluated to a value does not go back, and has moved only up to the end. -/
theorem remaining_lt_of_moved {depth : Nat} {o : Object} {s : Progress} {v : Value} {j : Int}
    (h : ofRun? (g.evaluate content depth o s) = some (.ok v j)) (hj : j ≠ s.position) :
    content.remaining j < content.remaining s.position := by
  have hb := g.evaluate_bounds content (ne_givenUp_of_ofRun? h)
  obtain ⟨s', hr, rfl⟩ := eq_matched_of_ofRun? h
  rw [hr] at hb
  simp only [Content.remaining] at hb ⊢
  omega

/-- One more level: an object is evaluated as its parser runs. -/
theorem evaluatesTo_of_attempt {o : Object} {p : Parser} (hp : g.parser? o = some p) {i : Int}
    {e : Verdict Value} (enough : Nat)
    (h : ∀ depth ≥ enough, ∀ s, s.position = i →
      ofRun? (p.attempt g.raise (g.evaluate content depth) content s) = some e) :
    g.EvaluatesTo content o i e := by
  refine ⟨enough + 1, fun depth hd s hs => ?_⟩
  obtain ⟨depth, rfl⟩ : ∃ n, depth = n + 1 := ⟨depth - 1, by omega⟩
  rw [evaluate_succ, hp]
  exact h depth (by omega) s hs

mutual

theorem Reads.evaluatesTo {o : Object} {i : Int} {e : Verdict Value} :
    g.Reads content o i e → g.EvaluatesTo content o i e
  | .literal hp => evaluatesTo_of_attempt hp 0 fun _ _ s hs => hs ▸ ofRun?_literal _ _ s
  | .endOfInput hp => evaluatesTo_of_attempt hp 0 fun _ _ s hs => hs ▸ ofRun?_endOfInput s
  | .forward hp => evaluatesTo_of_attempt hp 0 fun _ _ _ _ => rfl
  | .noParser hp => by
    refine ⟨1, fun depth hd s _ => ?_⟩
    obtain ⟨depth, rfl⟩ : ∃ n, depth = n + 1 := ⟨depth - 1, by omega⟩
    rw [evaluate_succ, hp]
    rfl
  | .sequence hp h => by
    obtain ⟨enough, hd⟩ := h.evaluatesTo
    exact evaluatesTo_of_attempt hp enough fun depth hle s hs => hd depth hle s hs s.position []
  | .repetition hp h => by
    obtain ⟨enough, hd⟩ := h.evaluatesTo
    exact evaluatesTo_of_attempt hp enough fun depth hle s hs =>
      hd depth hle s hs _ (hs ▸ Nat.lt_succ_self _) []
  | .first hp ha he => by
    obtain ⟨enough, hd⟩ := ha.evaluatesTo
    refine evaluatesTo_of_attempt hp enough fun depth hle s hs => ?_
    have hr := hd depth hle s hs
    simp only [Parser.attempt, Attempt.alternation]
    generalize g.evaluate content depth _ s = r at hr ⊢
    rcases r with ⟨_ | _ | _ | _, s'⟩
    case mismatch => exact absurd (Option.some.inj hr).symm he
    all_goals exact hr
  | .second hp ha hb => by
    obtain ⟨enough, hd⟩ := ha.evaluatesTo
    obtain ⟨enough', hd'⟩ := hb.evaluatesTo
    refine evaluatesTo_of_attempt hp (max enough enough') fun depth hle s hs => ?_
    obtain ⟨s', hr⟩ := eq_mismatch_of_ofRun? (hd depth (by omega) s hs)
    simp only [Parser.attempt, Attempt.alternation, hr]
    exact hd' depth (by omega) _ hs
  | .map hp ha => by
    obtain ⟨enough, hd⟩ := ha.evaluatesTo
    refine evaluatesTo_of_attempt hp enough fun depth hle s hs => ?_
    obtain ⟨s', hr, rfl⟩ := eq_matched_of_ofRun? (hd depth hle s hs)
    simp only [Parser.attempt, Attempt.map, hr, ofRun?_ofExcept, Progress.addNote]
    split <;> rfl
  | .mapFail hp ha => by
    obtain ⟨enough, hd⟩ := ha.evaluatesTo
    refine evaluatesTo_of_attempt hp enough fun depth hle s hs => ?_
    obtain ⟨s', hr⟩ := eq_mismatch_of_ofRun? (hd depth hle s hs)
    simp only [Parser.attempt, Attempt.map, hr, ofRun?]
  | .mapError hp ha => by
    obtain ⟨enough, hd⟩ := ha.evaluatesTo
    refine evaluatesTo_of_attempt hp enough fun depth hle s hs => ?_
    obtain ⟨s', hr⟩ := eq_raised_of_ofRun? (hd depth hle s hs)
    simp only [Parser.attempt, Attempt.map, hr, ofRun?]

theorem ReadsInOrder.evaluatesTo {os : List Object} {i : Int} {e : Verdict (List Value)} :
    g.ReadsInOrder content os i e → ∃ enough, ∀ depth ≥ enough, ∀ s, s.position = i →
      ∀ start results, ofRun? (Attempt.sequence (g.evaluate content depth) start os results s) =
        some (e.map fun vs => .list (results.reverse ++ vs))
  | .nil => ⟨0, fun _ _ s hs _ results => by simp [Attempt.sequence, ofRun?, Verdict.map, hs]⟩
  | .cons ho h => by
    obtain ⟨enough, hd⟩ := ho.evaluatesTo
    obtain ⟨enough', hd'⟩ := h.evaluatesTo
    refine ⟨max enough enough', fun depth hle s hs start results => ?_⟩
    obtain ⟨s', hr, hs'⟩ := eq_matched_of_ofRun? (hd depth (by omega) s hs)
    simp only [Attempt.sequence, hr, hd' depth (by omega) s' hs', Verdict.map_map]
    simp [Function.comp_def]
  | .fail ho => by
    obtain ⟨enough, hd⟩ := ho.evaluatesTo
    refine ⟨enough, fun depth hle s hs start results => ?_⟩
    obtain ⟨s', hr⟩ := eq_mismatch_of_ofRun? (hd depth hle s hs)
    simp only [Attempt.sequence, hr, ofRun?, Verdict.map]
  | .error ho => by
    obtain ⟨enough, hd⟩ := ho.evaluatesTo
    refine ⟨enough, fun depth hle s hs start results => ?_⟩
    obtain ⟨s', hr⟩ := eq_raised_of_ofRun? (hd depth hle s hs)
    simp only [Attempt.sequence, hr, ofRun?, Verdict.map]

/-- As many rounds as there are elements left, and one more, are enough. -/
theorem ReadsRounds.evaluatesTo {o : Object} {i : Int} {e : Verdict (List Value)} :
    g.ReadsRounds content o i e → ∃ enough, ∀ depth ≥ enough, ∀ s, s.position = i →
      ∀ rounds > content.remaining i, ∀ results,
        ofRun? (Attempt.repetition g.raise (g.evaluate content depth) o rounds results s) =
          some (e.map fun vs => .list (results.reverse ++ vs))
  | .last ho => by
    obtain ⟨enough, hd⟩ := ho.evaluatesTo
    refine ⟨enough, fun depth hle s hs rounds hm results => ?_⟩
    obtain ⟨rounds, rfl⟩ : ∃ n, rounds = n + 1 := ⟨rounds - 1, by omega⟩
    obtain ⟨s', hr⟩ := eq_mismatch_of_ofRun? (hd depth hle s hs)
    simp [Attempt.repetition, hr, ofRun?, Verdict.map, Progress.moveTo, hs]
  | .more ho hj h => by
    obtain ⟨enough, hd⟩ := ho.evaluatesTo
    obtain ⟨enough', hd'⟩ := h.evaluatesTo
    refine ⟨max enough enough', fun depth hle s hs rounds hm results => ?_⟩
    obtain ⟨rounds, rfl⟩ : ∃ n, rounds = n + 1 := ⟨rounds - 1, by omega⟩
    have hr := hd depth (by omega) s hs
    have hlt := remaining_lt_of_moved hr (hs ▸ hj)
    obtain ⟨s', hr, hs'⟩ := eq_matched_of_ofRun? hr
    simp only [Attempt.repetition, hr, hs', hs, hj, ↓reduceIte,
      hd' depth (by omega) s' hs' rounds (by rw [hs] at hlt; omega), Verdict.map_map]
    simp [Function.comp_def]
  | .idle ho => by
    obtain ⟨enough, hd⟩ := ho.evaluatesTo
    refine ⟨enough, fun depth hle s hs rounds hm results => ?_⟩
    obtain ⟨rounds, rfl⟩ : ∃ n, rounds = n + 1 := ⟨rounds - 1, by omega⟩
    obtain ⟨s', hr, hs'⟩ := eq_matched_of_ofRun? (hd depth hle s hs)
    simp only [Attempt.repetition, hr, hs', hs, ↓reduceIte, ofRun?, Verdict.map]
  | .error ho => by
    obtain ⟨enough, hd⟩ := ho.evaluatesTo
    refine ⟨enough, fun depth hle s hs rounds hm results => ?_⟩
    obtain ⟨rounds, rfl⟩ : ∃ n, rounds = n + 1 := ⟨rounds - 1, by omega⟩
    obtain ⟨s', hr⟩ := eq_raised_of_ofRun? (hd depth hle s hs)
    simp only [Attempt.repetition, hr, ofRun?, Verdict.map]

end

/-- What a parse shows is what the object reads. -/
theorem ofRun?_parse_iff {o : Object} {i : Int} {e : Verdict Value} :
    ofRun? (g.parse o content i) = some e ↔ g.Reads content o i e := by
  constructor
  · exact reads_of_evaluate
  · intro h
    obtain ⟨enough, hd⟩ := h.evaluatesTo
    have hr := hd enough (Nat.le_refl _) { position := i } rfl
    have hn := ne_givenUp_of_ofRun? hr
    rwa [(parse_eq_iff hn).mpr ⟨hn, enough, rfl⟩]

/-- A reading has one verdict only. -/
theorem Reads.unique {o : Object} {i : Int} {e e' : Verdict Value} (h : g.Reads content o i e)
    (h' : g.Reads content o i e') : e = e' := by
  rw [← ofRun?_parse_iff] at h h'
  exact Option.some.inj (h.symm.trans h')

/-- A parse is given up where the object reads nothing. -/
theorem parse_givenUp_of_not_reads {o : Object} {i : Int} (h : ∀ e, ¬ g.Reads content o i e) :
    ∃ s, g.parse o content i = (.givenUp, s) := by
  simp only [← ofRun?_parse_iff] at h
  generalize g.parse o content i = r at h ⊢
  rcases r with ⟨_ | _ | _ | _, s⟩
  case givenUp => exact ⟨s, rfl⟩
  all_goals exact absurd rfl (h _)

theorem reads_sequence_iff {o : Object} {os : List Object}
    (hp : g.parser? o = some (.sequence os)) {i : Int} {e : Verdict Value} :
    g.Reads content o i e ↔ ∃ e', g.ReadsInOrder content os i e' ∧ e = e'.map .list := by
  refine ⟨fun h => ?_, fun ⟨e', h, he⟩ => he ▸ .sequence hp h⟩
  cases h
  case sequence hp' h => cases hp.symm.trans hp'; exact ⟨_, h, rfl⟩
  all_goals simp_all

theorem reads_repetition_iff {o a : Object} (hp : g.parser? o = some (.repetition a)) {i : Int}
    {e : Verdict Value} :
    g.Reads content o i e ↔ ∃ e', g.ReadsRounds content a i e' ∧ e = e'.map .list := by
  refine ⟨fun h => ?_, fun ⟨e', h, he⟩ => he ▸ .repetition hp h⟩
  cases h
  case repetition hp' h => cases hp.symm.trans hp'; exact ⟨_, h, rfl⟩
  all_goals simp_all

/-- A map reads only where its object does. -/
theorem Reads.of_map {o a : Object} {t : Transform} (hp : g.parser? o = some (.map a t)) {i : Int}
    {e : Verdict Value} (h : g.Reads content o i e) : ∃ e', g.Reads content a i e' := by
  cases h
  case map hp' h | mapFail hp' h | mapError hp' h =>
    cases hp.symm.trans hp'
    exact ⟨_, h⟩
  all_goals simp_all

theorem Reads.toExcept_parse {o : Object} {i j : Int} {v : Value}
    (h : g.Reads content o i (.ok v j)) : (g.parse o content i).1.toExcept = .ok v := by
  obtain ⟨s, hr, -⟩ := eq_matched_of_ofRun? (ofRun?_parse_iff.mpr h)
  rw [hr]
  rfl

theorem Reads.toExcept_parse_fail {o : Object} {i : Int} (h : g.Reads content o i .fail) :
    (g.parse o content i).1.toExcept = .ok .failure := by
  obtain ⟨s, hr⟩ := eq_mismatch_of_ofRun? (ofRun?_parse_iff.mpr h)
  rw [hr]
  rfl

/-- A parse gives a value and leaves its position exactly where the object reads that value up to
that position, does not match exactly where the object fails, and raises a fault exactly where the
object is in error with it. It is given up exactly where the object reads nothing at all, as a
reading that goes on forever. -/
theorem parse_iff_reads (g : Graph) (content : Content) (o : Object) (i : Int) :
    (∀ v j, (∃ s, g.parse o content i = (.matched v, s) ∧ s.position = j) ↔
        g.Reads content o i (.ok v j)) ∧
      ((∃ s, g.parse o content i = (.mismatch, s)) ↔ g.Reads content o i .fail) ∧
      (∀ f, (∃ s, g.parse o content i = (.raised f, s)) ↔ g.Reads content o i (.error f)) ∧
      ((∃ s, g.parse o content i = (.givenUp, s)) ↔ ∀ e, ¬ g.Reads content o i e) := by
  simp only [← ofRun?_parse_iff]
  refine ⟨fun v j => ⟨?_, eq_matched_of_ofRun?⟩, ⟨?_, eq_mismatch_of_ofRun?⟩,
    fun f => ⟨?_, eq_raised_of_ofRun?⟩, ?_, fun h => ?_⟩
  · rintro ⟨s, hr, rfl⟩
    rw [hr]; rfl
  · rintro ⟨s, hr⟩
    rw [hr]; rfl
  · rintro ⟨s, hr⟩
    rw [hr]; rfl
  · rintro ⟨s, hr⟩ e
    rw [hr]; nofun
  · generalize g.parse o content i = r at h
    rcases r with ⟨_ | _ | _ | _, s⟩
    case givenUp => exact ⟨s, rfl⟩
    all_goals exact absurd rfl (h _)

end Graph

end ParserGraph
