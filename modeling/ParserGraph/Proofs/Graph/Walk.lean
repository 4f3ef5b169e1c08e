import ParserGraph.Proofs.Graph.Resolution

/-!
# What a walk visits

A walk puts each object that it finds onto its stack once. If it is not ended early, it has visited
nodes only, and everything that can be reached (`walk_complete`).

Where everything that can be reached is a node (`OnlyNodes`), what is pending stays without
repetitions (`Proper`). So a walk is not ended early there (`walk_fault_eq_none`): its visits are
enough, as each is of a node of its own.

So the check before a compilation, which looks for obstacles at the visited objects, finds out
whether an entry can be resolved (`resolvable_of_checkResolvable`).
-/

namespace ParserGraph.Graph

open Relation

variable {g : Graph} {root o : Object}

/-- Only a node is the same as a node. -/
theorem same_node {id : NodeId} {o : Object} : Object.same (.node id) o = true ↔ o = .node id := by
  cases o with
  | node j => rw [Object.same, beq_iff_eq, Object.node.injEq, eq_comm]
  | _ => simp [Object.same]

/-- An object need not be put onto the stack if it, or one that is the same, was seen. -/
def Found (o x : Object) : Prop :=
  o = x ∨ o.same x = true

theorem Found.eq_of_isSome {o x : Object} (h : Found o x) (hx : (g.node? x).isSome) : o = x := by
  rcases h with rfl | h
  · rfl
  obtain ⟨id, node, rfl, -⟩ := node?_of_isSome hx
  cases o with
  | node j => exact (same_node.mp h).symm
  | _ => simp [Object.same] at h

/-- What is put onto the stack: objects of the row, such that each of the row was seen then. -/
theorem pushNew_ok {p p' : Pending} {os : List Object} (h : p.pushNew os = .ok p') :
    ∃ new, p'.stack = new ++ p.stack ∧ p'.seen = new ++ p.seen ∧ (∀ o ∈ new, o ∈ os) ∧
      ∀ o ∈ os, ∃ x ∈ p'.seen, Found o x := by
  induction os generalizing p with
  | nil =>
    cases h
    exact ⟨[], by simp⟩
  | cons o os ih =>
    simp only [Pending.pushNew] at h
    split at h
    · cases h
    split at h
    · rename_i hs
      obtain ⟨new, hst, hse, hn, hall⟩ := ih h
      refine ⟨new, hst, hse, fun x hx => List.mem_cons_of_mem _ (hn x hx),
        List.forall_mem_cons.mpr ⟨?_, hall⟩⟩
      obtain ⟨x, hx, hsame⟩ := List.any_eq_true.mp hs
      exact ⟨x, hse ▸ List.mem_append_right _ hx, .inr hsame⟩
    · obtain ⟨new, hst, hse, hn, hall⟩ := ih h
      refine ⟨new ++ [o], by simp [hst], by simp [hse], fun x hx => ?_,
        List.forall_mem_cons.mpr ⟨⟨o, by simp [hse], .inl rfl⟩, hall⟩⟩
      rcases List.mem_append.mp hx with hx | hx
      · exact List.mem_cons_of_mem _ (hn x hx)
      · rw [List.mem_singleton.mp hx]
        exact List.mem_cons_self ..

/-- Nodes can always be put onto the stack, and none twice. -/
theorem pushNew_nodes {p : Pending} {os : List Object} (hos : ∀ o ∈ os, ∃ id, o = .node id)
    (hp : p.seen.Nodup) : ∃ p', p.pushNew os = .ok p' ∧ p'.seen.Nodup := by
  induction os generalizing p with
  | nil => exact ⟨p, rfl, hp⟩
  | cons o os ih =>
    obtain ⟨⟨id, rfl⟩, hos'⟩ := List.forall_mem_cons.mp hos
    simp only [Pending.pushNew, Object.isHashable, Bool.not_true, Bool.false_eq_true, ↓reduceIte]
    split
    · exact ih hos' hp
    · rename_i hs
      refine ih hos' (List.nodup_cons.mpr ⟨fun hm => hs ?_, hp⟩)
      exact List.any_eq_true.mpr ⟨_, hm, same_node.mpr rfl⟩

/-- One visit of a walk that is not ended early: of a node, whose children are pending then. -/
theorem walkFrom_cons {visits : Nat} {o : Object} {stack seen : List Object}
    (h : (g.walkFrom (visits + 1) ⟨o :: stack, seen⟩).fault = none) :
    ∃ p pending, g.parser? o = some p ∧
      Pending.pushNew ⟨stack, seen⟩ p.children = .ok pending ∧
      (g.walkFrom visits pending).fault = none ∧
      (g.walkFrom (visits + 1) ⟨o :: stack, seen⟩).visited =
        o :: (g.walkFrom visits pending).visited := by
  simp only [walkFrom] at h ⊢
  cases hn : g.node? o with
  | none => simp [hn] at h
  | some node =>
    cases hp : Pending.pushNew ⟨stack, seen⟩ node.parser.children with
    | error f => simp [hn, hp] at h
    | ok pending =>
      simp only [hn, hp] at h
      exact ⟨node.parser, pending, by simp [parser?, hn], hp, h, by simp only [hp]⟩

/-- A walk that is not ended early visits what is pending, nodes only, and with each node its
children unless they were seen before. -/
theorem walkFrom_complete {visits : Nat} {pending : Pending}
    (h : (g.walkFrom visits pending).fault = none) :
    (∀ o ∈ pending.stack, o ∈ (g.walkFrom visits pending).visited) ∧
    (∀ o ∈ (g.walkFrom visits pending).visited, (g.node? o).isSome) ∧
    ∀ o ∈ (g.walkFrom visits pending).visited, ∀ c, g.Child o c →
      ∃ x, Found c x ∧ (x ∈ (g.walkFrom visits pending).visited ∨ x ∈ pending.seen) := by
  induction visits generalizing pending with
  | zero =>
    rcases pending with ⟨_ | ⟨o, stack⟩, seen⟩
    · simp [walkFrom]
    · cases h
  | succ visits ih =>
    rcases pending with ⟨_ | ⟨o, stack⟩, seen⟩
    · simp [walkFrom]
    obtain ⟨p, pending, hp, hpush, hfault, hvisited⟩ := walkFrom_cons h
    obtain ⟨hstack, hnodes, hchildren⟩ := ih hfault
    obtain ⟨new, hst, hse, -, hall⟩ := pushNew_ok hpush
    rw [hvisited]
    -- What was put onto the stack now is visited, so only what was seen before is left.
    have hseen : ∀ x, x ∈ pending.seen →
        x ∈ o :: (g.walkFrom visits pending).visited ∨ x ∈ seen := by
      intro x hx
      rw [hse] at hx
      refine (List.mem_append.mp hx).imp_left fun hn => List.mem_cons_of_mem _ (hstack x ?_)
      exact hst ▸ List.mem_append_left _ hn
    refine ⟨List.forall_mem_cons.mpr ⟨List.mem_cons_self .., fun x hx => ?_⟩,
      List.forall_mem_cons.mpr ⟨?_, hnodes⟩, List.forall_mem_cons.mpr ⟨fun c hc => ?_, ?_⟩⟩
    · exact List.mem_cons_of_mem _ (hstack x (hst ▸ List.mem_append_right _ hx))
    · rw [← isSome_parser?, hp]
      rfl
    · obtain ⟨q, hq, hcq⟩ := hc
      obtain rfl := Option.some.inj (hp.symm.trans hq)
      obtain ⟨x, hx, hf⟩ := hall c hcq
      exact ⟨x, hf, hseen x hx⟩
    · intro o' ho' c hc
      rcases hchildren o' ho' c hc with ⟨x, hf, hx | hx⟩
      · exact ⟨x, hf, .inl (List.mem_cons_of_mem _ hx)⟩
      · exact ⟨x, hf, hseen x hx⟩

/-- A walk that is not ended early has visited everything that can be reached, and nodes only. -/
theorem walk_complete {root : Object} (h : (g.walk root).fault = none) {o : Object}
    (ho : g.Reaches root o) : o ∈ (g.walk root).visited ∧ (g.node? o).isSome := by
  unfold walk at h ⊢
  split at h
  · rename_i hh
    rw [if_pos hh]
    obtain ⟨hstack, hnodes, hchildren⟩ := walkFrom_complete h
    have hroot := hstack root (List.mem_singleton_self root)
    have hmem : o ∈ (g.walkFrom (g.size + 1) ⟨[root], [root]⟩).visited := by
      induction ho with
      | refl => exact hroot
      | tail _ hc ih =>
        obtain ⟨x, hf, hx⟩ := hchildren _ ih _ hc
        have hx : x ∈ (g.walkFrom (g.size + 1) ⟨[root], [root]⟩).visited :=
          hx.elim id fun hx => List.mem_singleton.mp hx ▸ hroot
        rwa [hf.eq_of_isSome (hnodes x hx)]
    exact ⟨hmem, hnodes o hmem⟩
  · cases h

/-! ## Walks over nodes only -/

/-- Only nodes can be reached. -/
def OnlyNodes (g : Graph) (root : Object) : Prop :=
  ∀ o, g.Reaches root o → (g.node? o).isSome

theorem OnlyNodes.of_reaches (h : g.OnlyNodes root) (ho : g.Reaches root o) : g.OnlyNodes o :=
  fun x hx => h x (ho.trans hx)

theorem OnlyNodes.exists_parser? (h : g.OnlyNodes root) (ho : g.Reaches root o) :
    ∃ id p, o = .node id ∧ g.parser? o = some p := by
  obtain ⟨id, node, rfl, hn⟩ := node?_of_isSome (h o ho)
  exact ⟨id, node.parser, rfl, by rw [parser?, hn]; rfl⟩

/-- What waits was seen, each object of it once, and only nodes can be reached from there. -/
structure Proper (g : Graph) (pending : Pending) : Prop where
  sublist : pending.stack.Sublist pending.seen
  nodup : pending.seen.Nodup
  onlyNodes : ∀ o ∈ pending.seen, g.OnlyNodes o

theorem OnlyNodes.proper (h : g.OnlyNodes root) : g.Proper ⟨[root], [root]⟩ :=
  ⟨.refl _, by simp, List.forall_mem_singleton.mpr h⟩

/-- A visit puts children of the node in front of what waits. -/
theorem Proper.visit {stack seen : List Object} (h : g.Proper ⟨o :: stack, seen⟩) :
    ∃ p new, g.parser? o = some p ∧ (∀ c ∈ new, c ∈ p.children) ∧
      Pending.pushNew ⟨stack, seen⟩ p.children = .ok ⟨new ++ stack, new ++ seen⟩ ∧
      g.Proper ⟨new ++ stack, new ++ seen⟩ := by
  have ho := h.onlyNodes o (h.sublist.subset (List.mem_cons_self ..))
  obtain ⟨id, p, rfl, hp⟩ := ho.exists_parser? .refl
  have hchild : ∀ c ∈ p.children, g.OnlyNodes c := fun c hc => ho.of_reaches (.single ⟨p, hp, hc⟩)
  have hids : ∀ c ∈ p.children, ∃ id, c = .node id := fun c hc =>
    (hchild c hc).exists_parser? .refl |>.imp fun _ ⟨_, he, _⟩ => he
  obtain ⟨pending, hpush, hn⟩ := pushNew_nodes (p := ⟨stack, seen⟩) hids h.nodup
  obtain ⟨new, hst, hse, hnew, -⟩ := pushNew_ok hpush
  obtain ⟨stack', seen'⟩ := pending
  subst hst hse
  refine ⟨p, new, hp, hnew, hpush, ?_, hn, fun c hc => ?_⟩
  · exact (List.Sublist.refl new).append ((List.sublist_cons_self ..).trans h.sublist)
  · exact (List.mem_append.mp hc).elim (fun hc => hchild c (hnew c hc)) (h.onlyNodes c)

theorem walkFrom_visit {visits : Nat} {stack seen : List Object} {p : Parser} {pending : Pending}
    (hp : g.parser? o = some p) (hpush : Pending.pushNew ⟨stack, seen⟩ p.children = .ok pending) :
    g.walkFrom (visits + 1) ⟨o :: stack, seen⟩ =
      { g.walkFrom visits pending with visited := o :: (g.walkFrom visits pending).visited } := by
  obtain ⟨node, hn, rfl⟩ := Option.map_eq_some_iff.mp hp
  simp only [walkFrom, hn, hpush]

/-- As many visits as there are nodes are enough: what was seen and is not pending was visited. -/
theorem Proper.fault_eq_none {visits : Nat} {pending : Pending} (h : g.Proper pending)
    (hv : visits + pending.seen.length = g.size + 1 + pending.stack.length) :
    (g.walkFrom visits pending).fault = none := by
  induction visits generalizing pending with
  | zero =>
    rcases pending with ⟨_ | ⟨o, stack⟩, seen⟩
    · rfl
    -- There are more different nodes than nodes in the graph.
    have hsub : seen ⊆ (List.range g.size).map Object.node := by
      intro x hx
      obtain ⟨id, node, rfl, hid⟩ := node?_of_isSome (h.onlyNodes x hx x .refl)
      exact List.mem_map_of_mem (List.mem_range.mpr (isSome_node?.mp (by simp [hid])))
    have hle := (List.Nodup.subperm h.nodup hsub).length_le
    simp only [List.length_map, List.length_range, List.length_cons] at hle hv
    omega
  | succ visits ih =>
    rcases pending with ⟨_ | ⟨o, stack⟩, seen⟩
    · rfl
    obtain ⟨p, new, hp, -, hpush, hproper⟩ := h.visit
    rw [walkFrom_visit hp hpush]
    refine ih hproper ?_
    simp only [List.length_append, List.length_cons] at hv ⊢
    omega

/-- A walk is not ended early if only nodes can be reached. -/
theorem walk_fault_eq_none (h : g.OnlyNodes root) : (g.walk root).fault = none := by
  obtain ⟨id, -, rfl, -⟩ := h.exists_parser? .refl
  exact h.proper.fault_eq_none rfl

/-! ## The check before a compilation -/

/-- A check that passes has ended its walk, and met no obstacle. -/
theorem of_checkResolvable {entry : Object} (h : g.checkResolvable entry = .ok ()) :
    (g.walk entry).fault = none ∧ ∀ o ∈ (g.walk entry).visited, g.obstacle? o = none := by
  unfold checkResolvable at h
  simp only at h
  split at h
  · cases h
  rename_i hloop
  rw [List.findSome?_eq_none_iff] at hloop
  cases hfault : (g.walk entry).fault with
  | some f =>
    simp only [Walk.complete, hfault] at h
    cases h
  | none =>
    refine ⟨rfl, fun o ho => ?_⟩
    cases hob : g.obstacle? o with
    | none => rfl
    | some ob =>
      have hmem : ob ∈ (g.walk entry).visited.filterMap g.obstacle? :=
        List.mem_filterMap.mpr ⟨o, ho, hob⟩
      cases ob with
      | loop name => cases hloop _ hmem
      | unbound name =>
        simp only [Walk.complete, hfault] at h
        split at h
        · generalize sortedNames _ = names at h
          cases names <;> cases h
        · rename_i hnames
          rw [Bool.not_eq_true', Bool.not_eq_false, List.isEmpty_iff,
            List.filterMap_eq_nil_iff] at hnames
          cases hnames _ hmem

/-- A forward reference that is no obstacle has a target, and its chain comes to an end. -/
theorem of_obstacle?_eq_none {id : NodeId} (h : g.obstacle? (.node id) = none) {name : Value}
    {target : Option NodeId} (hp : g.parser? (.node id) = some (.forward name target)) :
    ∃ b e, target = some b ∧ g.Leads b e ∧ g.Terminal e := by
  cases target with
  | none => simp [obstacle?, hp] at h
  | some b =>
    have hpassed : g.Passed [id] b := ⟨by simp, by simpa using .single ⟨name, hp⟩⟩
    have hsteps : g.size < g.size + 1 + 1 := by omega
    rcases loopsFrom_cases hpassed hsteps with ⟨hl, -⟩ | ⟨-, e, he⟩
    · simp [obstacle?, hp, hl] at h
    · exact ⟨b, e, rfl, he⟩

/-- An entry that passes the check can be resolved. -/
theorem resolvable_of_checkResolvable {entry : Object} (h : g.checkResolvable entry = .ok ()) :
    g.Resolvable entry := by
  obtain ⟨hf, hob⟩ := of_checkResolvable h
  refine ⟨fun ho => (walk_complete hf ho).2, fun {o name} ho hp => ?_, fun {id} ho hl => ?_⟩
  · obtain ⟨id, rfl⟩ := exists_of_parser? hp
    obtain ⟨b, e, hb, -⟩ := of_obstacle?_eq_none (hob _ (walk_complete hf ho).1) hp
    cases hb
  · obtain ⟨b, hn, hb⟩ := TransGen.head'_iff.mp hl
    obtain ⟨name, hp⟩ := hn
    obtain ⟨b', e, hb', hl', he⟩ := of_obstacle?_eq_none (hob _ (walk_complete hf ho).1) hp
    cases hb'
    exact Leads.not_loop he (.head ⟨name, hp⟩ hl') hl

end ParserGraph.Graph
