import Mathlib.Data.List.Forall2
import ParserGraph.Graph.Evaluation

/-!
# Runs side by side

Two evaluations often differ only in a way that cannot be seen: in the depth they may use, in the
notes they started with, in the nodes that stand for the same parser, in where a content begins.
A `Correspondence` says which objects, states and faults of the two sides belong together, and what
that has to respect:

* `Parser.attempt_agrees`: parsers of one shape agree if their children do;
* `Graph.evaluate_agrees`: so do two graphs of nodes of one shape, to any depth.

A left side that is given up agrees with everything: it says nothing about the other side.
-/

namespace ParserGraph

/-- The ends of two runs agree, unless the first was given up. -/
inductive Agrees (states : Progress → Progress → Prop) (faults : Fault → Fault → Prop) :
    Outcome × Progress → Outcome × Progress → Prop
  | givenUp (s : Progress) (r : Outcome × Progress) : Agrees states faults (.givenUp, s) r
  | matched (v : Value) {s s' : Progress} (h : states s s') :
    Agrees states faults (.matched v, s) (.matched v, s')
  | mismatch {s s' : Progress} (h : states s s') :
    Agrees states faults (.mismatch, s) (.mismatch, s')
  | raised {f f' : Fault} {s s' : Progress} (hf : faults f f') (h : states s s') :
    Agrees states faults (.raised f, s) (.raised f', s')

/-- Parsers of one shape: all the same but for their edges, which lead to corresponding objects. The
targets of forward references may be any. -/
inductive Parser.Similar (objects : Object → Object → Prop) : Parser → Parser → Prop
  | literal (lower upper : Value) : Similar objects (.literal lower upper) (.literal lower upper)
  | sequence {os os' : List Object} (h : List.Forall₂ objects os os') :
    Similar objects (.sequence os) (.sequence os')
  | alternation {a a' b b' : Object} (ha : objects a a') (hb : objects b b') :
    Similar objects (.alternation a b) (.alternation a' b')
  | repetition {o o' : Object} (h : objects o o') : Similar objects (.repetition o) (.repetition o')
  | endOfInput : Similar objects .endOfInput .endOfInput
  | map {o o' : Object} (h : objects o o') (t : Transform) :
    Similar objects (.map o t) (.map o' t)
  | forward (name : Value) (target target' : Option NodeId) :
    Similar objects (.forward name target) (.forward name target')

theorem Parser.Similar.refl (objects : Object → Object → Prop) (h : ∀ o, objects o o) (p : Parser) :
    p.Similar objects p := by
  cases p with
  | literal lower upper => exact .literal lower upper
  | sequence os => exact .sequence (List.forall₂_same.mpr fun o _ => h o)
  | alternation a b => exact .alternation (h a) (h b)
  | repetition o => exact .repetition (h o)
  | endOfInput => exact .endOfInput
  | map o t => exact .map (h o) t
  | forward name target => exact .forward name target target

/-- What belongs together on two sides, and what it respects. -/
structure Correspondence (left right : Content) where
  objects : Object → Object → Prop
  states : Progress → Progress → Prop
  faults : Fault → Fault → Prop
  faults_refl (f : Fault) : faults f f
  read {s s' : Progress} : states s s' → left.read s.position = right.read s'.position
  atEnd {s s' : Progress} : states s s' → left.atEnd s.position = right.atEnd s'.position
  remaining {s s' : Progress} : states s s' →
    left.remaining s.position = right.remaining s'.position
  /-- Both sides move past an element. -/
  moveOn {s s' : Progress} {v : Value} : states s s' → left.read s.position = .ok (some v) →
    states (s.moveTo (s.position + 1)) (s'.moveTo (s'.position + 1))
  /-- Both sides go back to where they were. -/
  moveTo {s s' t t' : Progress} : states s s' → states t t' →
    states (t.moveTo s.position) (t'.moveTo s'.position)
  addNote {s s' : Progress} (note : Option Value) : states s s' →
    states (s.addNote note) (s'.addNote note)
  /-- Either both sides have moved or none has. -/
  position_eq {s s' t t' : Progress} : states s s' → states t t' →
    (t.position = s.position ↔ t'.position = s'.position)

namespace Correspondence

variable {left right : Content} (C : Correspondence left right)

/-- The ends of two runs agree. -/
abbrev Agrees : Outcome × Progress → Outcome × Progress → Prop :=
  ParserGraph.Agrees C.states C.faults

/-- Two ways to run objects agree on corresponding objects from corresponding states. -/
def Runs (run run' : Object → Attempt) : Prop :=
  ∀ ⦃o o'⦄, C.objects o o' → ∀ ⦃s s'⦄, C.states s s' → C.Agrees (run o s) (run' o' s')

/-- What the defects of parsers are raised as belongs together. -/
structure Raises (raise raise' : Defect → Fault) : Prop where
  zeroWidth ⦃o o' : Object⦄ : C.objects o o' →
    C.faults (raise (.zeroWidthRepetition o)) (raise' (.zeroWidthRepetition o'))
  parsedForward (name : Value) :
    C.faults (raise (.parsedForward name)) (raise' (.parsedForward name))

variable {C} in
/-- Where every object belongs to itself only, all defects may be raised in any one way. -/
theorem raises_self (h : ∀ ⦃o o'⦄, C.objects o o' → o' = o) (raise : Defect → Fault) :
    C.Raises raise raise where
  zeroWidth o o' ho := by rw [h ho]; exact C.faults_refl _
  parsedForward _ := C.faults_refl _

theorem agrees_ofExcept (r : Except Fault Value) {s s' : Progress} (h : C.states s s') :
    C.Agrees (.ofExcept r, s) (.ofExcept r, s') := by
  cases r with
  | error f => exact .raised (C.faults_refl f) h
  | ok v =>
    simp only [Outcome.ofExcept, Outcome.ofValue]
    split
    · exact .mismatch h
    · exact .matched v h

theorem literal_agrees (lower upper : Value) {s s' : Progress} (h : C.states s s') :
    C.Agrees (Attempt.literal left lower upper s) (Attempt.literal right lower upper s') := by
  simp only [Attempt.literal, ← C.read h]
  split
  · exact .raised (C.faults_refl _) h
  · exact .mismatch h
  · rename_i v hv
    have h' := C.moveOn h hv
    split
    · exact .mismatch h'
    · split
      · exact .matched v h'
      · exact .mismatch h'
      · exact .raised (C.faults_refl _) h'

theorem endOfInput_agrees {s s' : Progress} (h : C.states s s') :
    C.Agrees (Attempt.endOfInput left s) (Attempt.endOfInput right s') := by
  simp only [Attempt.endOfInput, ← C.atEnd h]
  split
  · exact .matched _ h
  · exact .mismatch h
  · exact .raised (C.faults_refl _) h

variable {run run' : Object → Attempt} {raise raise' : Defect → Fault}

theorem sequence_agrees (hrun : C.Runs run run') {os os' : List Object}
    (hos : List.Forall₂ C.objects os os') {start start' : Progress} (h₀ : C.states start start')
    (results : List Value) {s s' : Progress} (h : C.states s s') :
    C.Agrees (Attempt.sequence run start.position os results s)
      (Attempt.sequence run' start'.position os' results s') := by
  induction hos generalizing results s s' with
  | nil => exact .matched _ h
  | @cons o o' _ _ ho _ ih =>
    have ha := hrun ho h
    simp only [Attempt.sequence]
    generalize run o s = r, run' o' s' = r' at ha ⊢
    cases ha with
    | givenUp => exact .givenUp _ _
    | matched v h' => exact ih (v :: results) h'
    | mismatch h' => exact .mismatch (C.moveTo h₀ h')
    | raised hf h' => exact .raised hf h'

theorem alternation_agrees (hrun : C.Runs run run') {a a' b b' : Object} (ha : C.objects a a')
    (hb : C.objects b b') {s s' : Progress} (h : C.states s s') :
    C.Agrees (Attempt.alternation run a b s) (Attempt.alternation run' a' b' s') := by
  have hr := hrun ha h
  simp only [Attempt.alternation]
  generalize run a s = r, run' a' s' = r' at hr ⊢
  cases hr with
  | givenUp => exact .givenUp _ _
  | matched v h' => exact .matched v h'
  | mismatch h' => exact hrun hb (C.moveTo h h')
  | raised hf h' => exact .raised hf h'

theorem repetition_agrees (hraise : C.Raises raise raise') (hrun : C.Runs run run')
    {o o' : Object} (ho : C.objects o o') (rounds : Nat) (results : List Value) {s s' : Progress}
    (h : C.states s s') :
    C.Agrees (Attempt.repetition raise run o rounds results s)
      (Attempt.repetition raise' run' o' rounds results s') := by
  induction rounds generalizing results s s' with
  | zero => exact .givenUp _ _
  | succ rounds ih =>
    have hr := hrun ho h
    simp only [Attempt.repetition]
    generalize run o s = r, run' o' s' = r' at hr ⊢
    cases hr with
    | givenUp => exact .givenUp _ _
    | @matched v t t' h' =>
      by_cases he : t.position = s.position
      · simp only [he, (C.position_eq h h').mp he, ↓reduceIte]
        exact .raised (hraise.zeroWidth ho) h'
      · simp only [he, mt (C.position_eq h h').mpr he, ↓reduceIte]
        exact ih (v :: results) h'
    | mismatch h' => exact .matched _ (C.moveTo h h')
    | raised hf h' => exact .raised hf h'

theorem map_agrees (hrun : C.Runs run run') {o o' : Object} (ho : C.objects o o')
    (t : Transform) {s s' : Progress} (h : C.states s s') :
    C.Agrees (Attempt.map run o t s) (Attempt.map run' o' t s') := by
  have hr := hrun ho h
  simp only [Attempt.map]
  generalize run o s = r, run' o' s' = r' at hr ⊢
  cases hr with
  | givenUp => exact .givenUp _ _
  | matched v h' => exact C.agrees_ofExcept _ (C.addNote t.note h')
  | mismatch h' => exact .mismatch h'
  | raised hf h' => exact .raised hf h'

end Correspondence

/-- Parsers of one shape agree if their children do. -/
theorem Parser.attempt_agrees {left right : Content} (C : Correspondence left right)
    {raise raise' : Defect → Fault} (hraise : C.Raises raise raise') {run run' : Object → Attempt}
    (hrun : C.Runs run run') {p p' : Parser} (hp : p.Similar C.objects p') {s s' : Progress}
    (h : C.states s s') :
    C.Agrees (p.attempt raise run left s) (p'.attempt raise' run' right s') := by
  cases hp with
  | literal lower upper => exact C.literal_agrees lower upper h
  | sequence hos => exact C.sequence_agrees hrun hos h [] h
  | alternation ha hb => exact C.alternation_agrees hrun ha hb h
  | repetition ho =>
    simp only [Parser.attempt, ← C.remaining h]
    exact C.repetition_agrees hraise hrun ho _ [] h
  | endOfInput => exact C.endOfInput_agrees h
  | map ho t => exact C.map_agrees hrun ho t h
  | forward name => exact .raised (hraise.parsedForward name) h

/-! ## Runs of the same children -/

section

variable {raise raise' : Defect → Fault} {run run' : Object → Attempt}

theorem Attempt.sequence_congr {os : List Object} (h : ∀ o ∈ os, run o = run' o) (start : Int)
    (results : List Value) :
    Attempt.sequence run start os results = Attempt.sequence run' start os results := by
  induction os generalizing results with
  | nil => rfl
  | cons o os ih =>
    obtain ⟨ho, hos⟩ := List.forall_mem_cons.mp h
    funext s
    simp only [Attempt.sequence, ho, ih hos]

theorem Attempt.repetition_congr {o : Object}
    (hraise : raise (.zeroWidthRepetition o) = raise' (.zeroWidthRepetition o))
    (h : run o = run' o) (rounds : Nat) (results : List Value) :
    Attempt.repetition raise run o rounds results =
      Attempt.repetition raise' run' o rounds results := by
  induction rounds generalizing results with
  | zero => rfl
  | succ rounds ih =>
    funext s
    simp only [Attempt.repetition, hraise, h, ih]

/-- Only the runs of its children matter to a parser. -/
theorem Parser.attempt_congr {content : Content} (p : Parser)
    (h : ∀ o ∈ p.children, run o = run' o) :
    p.attempt raise run content = p.attempt raise run' content := by
  cases p with
  | sequence os =>
    have hos : ∀ o ∈ os, run o = run' o := h
    funext s
    simp only [Parser.attempt, Attempt.sequence_congr hos]
  | alternation a b =>
    obtain ⟨ha, hb⟩ := List.forall_mem_cons.mp h
    funext s
    simp only [Parser.attempt, Attempt.alternation, ha, List.forall_mem_singleton.mp hb]
  | repetition o =>
    have ho := List.forall_mem_singleton.mp h
    funext s
    simp only [Parser.attempt, Attempt.repetition_congr rfl ho]
  | map o t =>
    have ho := List.forall_mem_singleton.mp h
    funext s
    simp only [Parser.attempt, Attempt.map, ho]
  | _ => rfl

end

/-! ## Graphs of one shape -/

namespace Graph

/-- A run to a greater depth, by the parser of the object. -/
theorem evaluate_succ (g : Graph) (content : Content) (depth : Nat) (o : Object) (s : Progress) :
    g.evaluate content (depth + 1) o s = match g.parser? o with
      | some p => p.attempt g.raise (g.evaluate content depth) content s
      | none => (.raised (g.raise (.notAParser o)), s) := by
  simp only [evaluate, evaluateWith, parser?]
  cases g.node? o <;> rfl

/-- Two graphs have nodes of one shape for corresponding objects, and raise corresponding faults. -/
structure Corresponds {left right : Content} (C : Correspondence left right) (g g' : Graph) :
    Prop where
  raises : C.Raises g.raise g'.raise
  shape ⦃o o' : Object⦄ : C.objects o o' →
    (∃ p p', g.parser? o = some p ∧ g'.parser? o' = some p' ∧ p.Similar C.objects p') ∨
    (g.parser? o = none ∧ g'.parser? o' = none ∧
      C.faults (g.raise (.notAParser o)) (g'.raise (.notAParser o')))

/-- Graphs of nodes of one shape agree, to any depth. -/
theorem evaluate_agrees {left right : Content} {C : Correspondence left right} {g g' : Graph}
    (hg : Corresponds C g g') {depth depth' : Nat} (hd : depth ≤ depth') :
    C.Runs (g.evaluate left depth) (g'.evaluate right depth') := by
  induction depth generalizing depth' with
  | zero => exact fun _ _ _ s _ _ => .givenUp s _
  | succ depth ih =>
    obtain ⟨depth', rfl⟩ : ∃ n, depth' = n + 1 := ⟨depth' - 1, by omega⟩
    intro o o' ho s s' h
    rw [evaluate_succ, evaluate_succ]
    rcases hg.shape ho with ⟨p, p', hp, hp', hpp⟩ | ⟨hp, hp', hf⟩
    · rw [hp, hp']
      exact p.attempt_agrees C hg.raises (ih (by omega)) hpp h
    · rw [hp, hp']
      exact .raised hf h

end Graph

end ParserGraph
