import ParserGraph.Proofs.Graph.Reachability

/-!
# How a graph grows

The operators that build a graph only make nodes and bind forward references. Neither touches a
marked node where marks are closed: a new node is not marked, and a forward reference is not either.
So every operator keeps closed marks closed, and every mark (`Graph.Grows`).

An operator may fail on its way, and `Along` says what holds of its graph if it does not: it is
composed of the operator's steps as the operator is.
-/

namespace ParserGraph

/-- A change of a state that, where it does not fail, comes to a related state. -/
def Along {σ α : Type} (R : σ → σ → Prop) (m : StateT σ (Except Fault) α) : Prop :=
  ∀ s a s', m s = .ok (a, s') → R s s'

namespace Along

variable {σ α β : Type} {R : σ → σ → Prop}

theorem pure [Std.Refl R] (a : α) : Along R (Pure.pure a : StateT σ (Except Fault) α) := by
  intro s b s' h
  cases h
  exact Std.Refl.refl s

theorem throw (f : Fault) : Along R (MonadExcept.throw f : StateT σ (Except Fault) α) := by
  intro s b s' h
  cases h

theorem throw_bind (f : Fault) (k : α → StateT σ (Except Fault) β) :
    Along R (MonadExcept.throw f >>= k) := by
  intro s b s' h
  cases h

theorem bind [Trans R R R] {m : StateT σ (Except Fault) α} {k : α → StateT σ (Except Fault) β}
    (hm : Along R m) (hk : ∀ a, Along R (k a)) : Along R (m >>= k) := by
  intro s b s'' h
  change (m s >>= fun r => k r.1 r.2) = _ at h
  cases hr : m s with
  | error f =>
    rw [hr] at h
    cases h
  | ok r =>
    rw [hr] at h
    exact Trans.trans (hm s r.1 r.2 hr) (hk r.1 r.2 b s'' h)

theorem map [Std.Refl R] [Trans R R R] {m : StateT σ (Except Fault) α} (f : α → β)
    (hm : Along R m) : Along R (f <$> m) := by
  rw [← bind_pure_comp]
  exact hm.bind fun a => .pure (f a)

end Along

namespace Graph

variable {g g' g'' : Graph}

/-- Marks stay closed, and every mark stays. -/
structure Grows (g g' : Graph) : Prop where
  closed : g.MarksClosed → g'.MarksClosed
  marked {o : Object} : g.Marked o → g'.Marked o

theorem Grows.trans (h : g.Grows g') (h' : g'.Grows g'') : g.Grows g'' :=
  ⟨fun hc => h'.closed (h.closed hc), fun ho => h'.marked (h.marked ho)⟩

instance : Std.Refl Grows :=
  ⟨fun _ => ⟨id, id⟩⟩

instance : Trans Grows Grows Grows :=
  ⟨Grows.trans⟩

/-- A change that marks nothing and touches no marked node. -/
theorem Grows.of_marked_iff (hm : ∀ o, g'.Marked o ↔ g.Marked o)
    (hp : g.MarksClosed → ∀ o, g.Marked o → g'.parser? o = g.parser? o) : g.Grows g' := by
  refine ⟨fun hc => marksClosed_iff.mpr fun o ho => ?_, fun {o} => (hm o).mpr⟩
  rw [hm] at ho
  have hpo := hp hc o ho
  refine ⟨?_, fun o' ho' => (hm o').mpr ?_⟩
  · simpa only [isForward, hpo] using hc.isForward ho
  · exact hc.child ho (by simpa only [Child, hpo] using ho')

theorem marked_push (p : Parser) (o : Object) : (g.push p).Marked o ↔ g.Marked o := by
  cases o with
  | node id =>
    simp only [Marked, node?_push]
    by_cases h : id = g.size
    · have hn : g.node? (.node id) = none := by
        rw [← Option.not_isSome_iff_eq_none, isSome_node?, h]
        exact Nat.lt_irrefl _
      simp [h, h ▸ hn]
    · simp [h]
  | _ => exact Iff.rfl

theorem grows_push (g : Graph) (p : Parser) : g.Grows (g.push p) := by
  refine .of_marked_iff (marked_push p) fun _ o ho => ?_
  obtain ⟨id, node, rfl, hn⟩ := node?_of_isSome ho.isSome
  have hid : id < g.size := isSome_node?.mp (by rw [hn]; rfl)
  simp [parser?, node?_push, Nat.ne_of_lt hid]

theorem marked_setTarget (id target : NodeId) (o : Object) :
    (g.setTarget id target).Marked o ↔ g.Marked o := by
  cases o with
  | node j =>
    simp only [Marked, setTarget, node?_update]
    split
    · cases g.node? (.node j) with
      | none => simp
      | some node => cases hp : node.parser <;> simp [hp]
    · exact Iff.rfl
  | _ => exact Iff.rfl

theorem grows_setTarget (g : Graph) (id target : NodeId) : g.Grows (g.setTarget id target) := by
  refine .of_marked_iff (marked_setTarget id target) fun hc o ho => ?_
  obtain ⟨j, node, rfl, hn⟩ := node?_of_isSome ho.isSome
  simp only [parser?, setTarget, node?_update, hn]
  split
  · cases hp : node.parser with
    | forward name t =>
      have hno : g.parser? (.node j) ≠ some (.forward name t) := hc.not_forward ho
      exact absurd (by simp [parser?, hn, hp]) hno
    | _ => simp [hp]
  · rfl

/-! ## Operators -/

theorem along_add (p : Parser) : Along Grows (add p) := by
  intro g a g' h
  cases h
  exact grows_push g p

theorem along_operand (o : Object) : Along Grows (operand o) := by
  intro g p g' h
  unfold operand at h
  cases hp : Fault.noSuchOperation.orElse (g.parser? o) <;> rw [hp] at h <;> cases h
  exact Std.Refl.refl g

theorem along_andThen (self that : Object) : Along Grows (andThen self that) := by
  refine .bind (along_operand self) fun p => ?_
  cases p <;> exact along_add _

theorem along_orElse (self that : Object) : Along Grows (orElse self that) :=
  .bind (along_operand self) fun _ => along_add _

theorem along_star (self : Object) : Along Grows (star self) :=
  .bind (along_operand self) fun _ => along_add _

theorem along_plus (self : Object) : Along Grows (plus self) :=
  .bind (along_star self) fun _ => .bind (along_add _) fun _ => along_add _

theorem along_mapTo (self : Object) (transform : Transform) : Along Grows (mapTo self transform) :=
  .bind (along_operand self) fun _ => along_add _

theorem along_setTarget (id target : NodeId) :
    Along Grows (modify (·.setTarget id target) : Build Unit) := by
  intro g a g' h
  cases h
  exact grows_setTarget g id target

theorem along_bind (self that : Object) : Along Grows (bind self that) := by
  cases self with
  | grammar index => exact .throw_bind _ _
  | node id =>
    refine .bind (along_operand _) fun p => ?_
    cases p with
    | forward name target =>
      cases target with
      | some target => exact .throw_bind _ _
      | none =>
        cases that with
        | node other => exact along_setTarget id other
        | _ => exact .throw _
    | _ => exact .throw _
  | _ => exact .bind (along_operand _) fun _ => .throw _

end Graph

end ParserGraph
