import ParserGraph.Graph.Display

/-!
# Whether texts can be written

A defect that shows an object is raised as such only if the text of the object can be written. An
integer with too many digits keeps it from being written, in a bound or a name that the text shows.
In a graph without such values every node has a text (`raise_zeroWidth`), and an object that is no
node has the same text, or none, in every graph (`raise_congr`).
-/

namespace ParserGraph

/-- The bounds, the name or the transform of a parser can be written. -/
def Parser.Writable : Parser → Prop
  | .literal lower upper => lower.isWritable ∧ upper.isWritable
  | .map _ t => t.display.isSome
  | .forward name _ => name.isWritable
  | .sequence _ | .alternation .. | .repetition _ | .endOfInput => True

namespace Graph

/-- All values in a graph can be written. -/
structure Writable (g : Graph) : Prop where
  parser {o : Object} {p : Parser} : g.parser? o = some p → p.Writable
  edge {o : Object} {p : Parser} {v : Value} : g.parser? o = some p → .value v ∈ p.children →
    v.isWritable

variable {g g' : Graph} {other : Object → Except Fault String} {f : Fault}

theorem ok_ne_error {α : Type} {a : α} : Except.ok a ≠ .error f := by
  simp

theorem bind_ne_error {α β : Type} {m : Except Fault α} {k : α → Except Fault β}
    (hm : m ≠ .error f) (hk : ∀ a, k a ≠ .error f) : (m >>= k) ≠ .error f := by
  cases m with
  | error f' => exact fun h => hm (congrArg _ (Except.error.inj h))
  | ok a => exact hk a

theorem mapM_ne_error {α β : Type} {k : α → Except Fault β} {as : List α}
    (h : ∀ a ∈ as, k a ≠ .error f) : as.mapM k ≠ .error f := by
  induction as with
  | nil => exact ok_ne_error
  | cons a as ih =>
    obtain ⟨ha, has⟩ := List.forall_mem_cons.mp h
    rw [List.mapM_cons]
    exact bind_ne_error ha fun _ => bind_ne_error (ih has) fun _ => ok_ne_error

theorem display_of_isWritable {v : Value} (h : v.isWritable) : v.display = .ok v.spelling :=
  if_pos h

/-- An object that is no node of the graph has the text that it is given. -/
theorem display_of_none {o : Object} (h : g.parser? o = none) : g.display other o = other o := by
  cases o with
  | node id => simp [display, displayFrom, h]
  | _ => rfl

/-- Nothing keeps the text of an object from being written. -/
def Shown (o : Object) : Prop :=
  ∀ v, o = .value v → v.isWritable

/-- By induction on the depth: where all values can be written, no text fails for one of them. -/
theorem Writable.displayFrom_ne (hw : g.Writable) {depth : Nat} {unfinished : List NodeId}
    {o : Object} (ho : Shown o) :
    g.displayFrom displayValue depth unfinished o ≠ .error .wrongValue := by
  induction depth generalizing unfinished o with
  | zero => simp [displayFrom]
  | succ depth ih =>
    cases o with
    | node id =>
      have part (unfinished : List NodeId) {p : Parser} (hp : g.parser? (.node id) = some p)
          {c : Object} (hc : c ∈ p.children) :
          g.displayFrom displayValue depth unfinished c ≠ .error .wrongValue :=
        ih fun v hv => hw.edge hp (hv ▸ hc)
      simp only [displayFrom]
      split
      · exact ok_ne_error
      cases hp : g.parser? (.node id) with
      | none => simp [displayValue]
      | some p =>
        have hwp := hw.parser hp
        cases p with
        | literal lower upper =>
          simp only [display_of_isWritable hwp.1, display_of_isWritable hwp.2]
          exact ok_ne_error
        | sequence parsers =>
          exact bind_ne_error (mapM_ne_error fun c hc => part _ hp hc) fun _ => ok_ne_error
        | alternation first second =>
          exact bind_ne_error (part _ hp (List.mem_cons_self ..)) fun _ =>
            bind_ne_error (part _ hp (by simp [Parser.children])) fun _ => ok_ne_error
        | repetition parser =>
          exact bind_ne_error (part _ hp (List.mem_cons_self ..)) fun _ => ok_ne_error
        | endOfInput => exact ok_ne_error
        | map parser t =>
          obtain ⟨text, ht⟩ := Option.isSome_iff_exists.mp hwp
          refine bind_ne_error (part _ hp (List.mem_cons_self ..)) fun _ => ?_
          rw [ht]
          exact ok_ne_error
        | forward name target =>
          simp only [display_of_isWritable hwp]
          exact ok_ne_error
    | value v =>
      change v.display ≠ _
      rw [display_of_isWritable (ho v rfl)]
      exact ok_ne_error
    | _ => simp [displayFrom, displayValue]

/-! ## What is raised -/

/-- Where all values can be written, the defect of a repetition of a node is raised as itself. -/
theorem Writable.raise_zeroWidth (hw : g.Writable) (id : NodeId) :
    g.raise (.zeroWidthRepetition (.node id)) = .defect (.zeroWidthRepetition (.node id)) := by
  have h : g.display displayValue (.node id) ≠ .error .wrongValue := hw.displayFrom_ne nofun
  unfold raise Defect.message Defect.sentenceOn
  generalize g.display displayValue (.node id) = text at h ⊢
  rcases text with f | text
  · cases f with
    | wrongValue => exact absurd rfl h
    | _ => rfl
  · rfl

/-- What is raised does not depend on the graph, if it shows no node. -/
theorem raise_congr (g g' : Graph) {d : Defect}
    (h : d.message (g.display displayValue) = d.message (g'.display displayValue)) :
    g.raise d = g'.raise d := by
  unfold raise
  rw [h]

theorem raise_notAParser {o : Object} (h : g.parser? o = none) (h' : g'.parser? o = none) :
    g.raise (.notAParser o) = g'.raise (.notAParser o) :=
  raise_congr g g' (by rw [Defect.message, Defect.message, display_of_none h, display_of_none h'])

theorem raise_zeroWidth_of_none {o : Object} (h : g.parser? o = none) (h' : g'.parser? o = none) :
    g.raise (.zeroWidthRepetition o) = g'.raise (.zeroWidthRepetition o) :=
  raise_congr g g' (by rw [Defect.message, Defect.message, display_of_none h, display_of_none h'])

end Graph

end ParserGraph
