import Mathlib.Data.Set.Function
import ParserGraph.Graph.Dump
import ParserGraph.Proofs.Graph.Completion

/-!
# The order of a walk

A walk from a root that reaches only nodes visits each of these once, the root first, so the places
in the row of visited nodes are numbers for them (`OnlyNodes.numbers`).

A walk goes by the edges of nodes and their order, and by whether two nodes are one. A bijection
that keeps these takes one walk to another, step by step: what is pending on one side is what is
pending on the other (`Isomorphism.walkFrom`, `Isomorphism.visited`).
-/

namespace ParserGraph.Graph

variable {g g' : Graph} {root root' o : Object}

/-! ## One visit after the other -/

/-- No node is visited twice, nor one that was seen before and does not wait. -/
theorem Proper.nodup_visited {visits : Nat} {pending : Pending} (h : g.Proper pending) :
    (g.walkFrom visits pending).visited.Nodup ∧
      ∀ o ∈ (g.walkFrom visits pending).visited, o ∈ pending.stack ∨ o ∉ pending.seen := by
  induction visits generalizing pending with
  | zero => rcases pending with ⟨_ | ⟨o, stack⟩, seen⟩ <;> simp [walkFrom]
  | succ visits ih =>
    rcases pending with ⟨_ | ⟨o, stack⟩, seen⟩
    · simp [walkFrom]
    obtain ⟨p, new, hp, -, hpush, hproper⟩ := h.visit
    obtain ⟨hnd, hfresh⟩ := ih hproper
    have hdisjoint : ∀ c ∈ new, c ∉ seen := fun c hc hs =>
      List.disjoint_of_nodup_append hproper.nodup hc hs
    have hstack : o ∉ stack := (List.nodup_cons.mp (h.sublist.nodup h.nodup)).1
    have hseen : o ∈ seen := h.sublist.subset (List.mem_cons_self ..)
    rw [walkFrom_visit hp hpush]
    refine ⟨List.nodup_cons.mpr ⟨fun ho => ?_, hnd⟩, List.forall_mem_cons.mpr
      ⟨.inl (List.mem_cons_self ..), fun x hx => ?_⟩⟩
    · rcases hfresh o ho with ho | ho
      · exact (List.mem_append.mp ho).elim (fun hn => hdisjoint o hn hseen) hstack
      · exact ho (List.mem_append_right new hseen)
    · rcases hfresh x hx with hx | hx
      · exact (List.mem_append.mp hx).elim (fun hn => .inr (hdisjoint x hn))
          fun hs => .inl (List.mem_cons_of_mem o hs)
      · exact .inr fun hs => hx (List.mem_append_right new hs)

/-- More visits than enough change nothing. -/
theorem walkFrom_add {visits : Nat} {pending : Pending}
    (h : (g.walkFrom visits pending).fault = none) (more : Nat) :
    g.walkFrom (visits + more) pending = g.walkFrom visits pending := by
  induction visits generalizing pending with
  | zero =>
    rcases pending with ⟨_ | ⟨o, stack⟩, seen⟩
    · simp [walkFrom]
    · cases h
  | succ visits ih =>
    rcases pending with ⟨_ | ⟨o, stack⟩, seen⟩
    · simp [walkFrom]
    obtain ⟨p, pending, hp, hpush, hfault, -⟩ := walkFrom_cons h
    rw [Nat.add_right_comm, walkFrom_visit hp hpush, walkFrom_visit hp hpush, ih hfault]

/-! ## Numbers -/

/-- A row of all that can be reached, each once, the root first. -/
structure Numbers (g : Graph) (root : Object) (row : List Object) : Prop where
  nodup : row.Nodup
  getElem?_zero : row[0]? = some root
  mem_iff {o : Object} : o ∈ row ↔ g.Reaches root o

theorem OnlyNodes.walk_eq (h : g.OnlyNodes root) :
    g.walk root = g.walkFrom (g.size + 1) ⟨[root], [root]⟩ := by
  obtain ⟨id, p, rfl, -⟩ := h.exists_parser? .refl
  rfl

theorem OnlyNodes.reachable_eq (h : g.OnlyNodes root) :
    g.reachable root = .ok (g.walk root).visited := by
  rw [reachable, Walk.complete, walk_fault_eq_none h]

theorem OnlyNodes.numbers (h : g.OnlyNodes root) : g.Numbers root (g.walk root).visited := by
  refine ⟨?_, ?_, reaches_of_mem_walk, fun ho => (walk_complete (walk_fault_eq_none h) ho).1⟩
  · rw [h.walk_eq]
    exact h.proper.nodup_visited.1
  · obtain ⟨p, new, hp, -, hpush, -⟩ := h.proper.visit
    rw [h.walk_eq, walkFrom_visit hp hpush]
    rfl

/-! ## Walks of isomorphic graphs -/

/-- A bijection between what two roots reach that keeps the roots, the labels of nodes and their
children in order. -/
structure Isomorphism (g : Graph) (root : Object) (g' : Graph) (root' : Object)
    (f : Object → Object) : Prop where
  bijOn : Set.BijOn f {o | g.Reaches root o} {o | g'.Reaches root' o}
  root_eq : f root = root'
  parser? {o : Object} : g.Reaches root o → ∃ p p', g.parser? o = some p ∧
    g'.parser? (f o) = some p' ∧ p'.label = p.label ∧ p'.children = p.children.map f

variable {f : Object → Object}

/-- Both sides find the same objects on their stacks and among those that were seen. -/
def Pending.map (f : Object → Object) (pending : Pending) : Pending :=
  ⟨pending.stack.map f, pending.seen.map f⟩

/-- Objects are put onto a stack alike if the same of them are one. -/
theorem pushNew_map {S : Set Object} (hsame : ∀ x ∈ S, ∀ y ∈ S, (f x).same (f y) = x.same y)
    (hhash : ∀ x ∈ S, (f x).isHashable = x.isHashable) {pending : Pending} {os : List Object}
    (hseen : ∀ o ∈ pending.seen, o ∈ S) (hos : ∀ o ∈ os, o ∈ S) :
    (pending.map f).pushNew (os.map f) = (pending.pushNew os).map (Pending.map f) := by
  induction os generalizing pending with
  | nil => rfl
  | cons o os ih =>
    obtain ⟨ho, hrest⟩ := List.forall_mem_cons.mp hos
    have hany : (pending.map f).seen.any (f o).same = pending.seen.any o.same := by
      rw [Pending.map, List.any_map, Bool.eq_iff_iff, List.any_eq_true, List.any_eq_true]
      exact exists_congr fun x => and_congr_right fun hx => by
        rw [Function.comp_apply, hsame o ho x (hseen x hx)]
    rw [List.map_cons, Pending.pushNew, Pending.pushNew, hany, hhash o ho]
    split
    · rfl
    split
    · exact ih hseen hrest
    · exact @ih ⟨o :: pending.stack, o :: pending.seen⟩ (List.forall_mem_cons.mpr ⟨ho, hseen⟩)
        hrest

theorem Isomorphism.exists_node (hi : g.Isomorphism root g' root' f) (hn : g.OnlyNodes root)
    (hn' : g'.OnlyNodes root') {x : Object} (hx : g.Reaches root x) :
    ∃ a b, x = .node a ∧ f x = .node b := by
  obtain ⟨a, -, ha, -⟩ := hn.exists_parser? hx
  obtain ⟨b, -, hb, -⟩ := hn'.exists_parser? (hi.bijOn.mapsTo hx)
  exact ⟨a, b, ha, hb⟩

/-- Two nodes are one on both sides or on none. -/
theorem Isomorphism.same (hi : g.Isomorphism root g' root' f) (hn : g.OnlyNodes root)
    (hn' : g'.OnlyNodes root') {x y : Object} (hx : g.Reaches root x) (hy : g.Reaches root y) :
    (f x).same (f y) = x.same y := by
  obtain ⟨a, b, rfl, hb⟩ := hi.exists_node hn hn' hx
  rw [Bool.eq_iff_iff, hb, same_node, same_node, ← hb]
  exact ⟨fun he => hi.bijOn.injOn hy hx he, fun he => congrArg f he⟩

/-- An isomorphism takes the walk from what is pending to the walk from where that is taken. -/
theorem Isomorphism.walkFrom (hi : g.Isomorphism root g' root' f) (hn : g.OnlyNodes root)
    (hn' : g'.OnlyNodes root') {visits : Nat} {pending : Pending} (h : g.Proper pending)
    (hr : ∀ o ∈ pending.seen, g.Reaches root o) :
    g'.walkFrom visits (pending.map f) =
      { g.walkFrom visits pending with
        visited := (g.walkFrom visits pending).visited.map f } := by
  induction visits generalizing pending with
  | zero => rcases pending with ⟨_ | ⟨o, stack⟩, seen⟩ <;> rfl
  | succ visits ih =>
    rcases pending with ⟨_ | ⟨o, stack⟩, seen⟩
    · simp [Graph.walkFrom, Pending.map]
    have ho := hr o (h.sublist.subset (List.mem_cons_self ..))
    obtain ⟨p, new, hp, hnew, hpush, hproper⟩ := h.visit
    obtain ⟨q, p', hq, hp', -, hchildren⟩ := hi.parser? ho
    obtain rfl := Option.some.inj (hp.symm.trans hq)
    have hreach : ∀ c ∈ p.children, g.Reaches root c := fun c hc => ho.tail ⟨p, hp, hc⟩
    have hhash : ∀ x, g.Reaches root x → (f x).isHashable = x.isHashable := fun x hx => by
      obtain ⟨a, b, rfl, hb⟩ := hi.exists_node hn hn' hx
      rw [hb]
      rfl
    have hpush' : (Pending.map f ⟨stack, seen⟩).pushNew (p.children.map f) =
        (Pending.pushNew ⟨stack, seen⟩ p.children).map (Pending.map f) :=
      pushNew_map (S := {x | g.Reaches root x}) (fun x hx y hy => hi.same hn hn' hx hy) hhash hr
        hreach
    rw [hpush, ← hchildren] at hpush'
    rw [walkFrom_visit hp hpush, Pending.map, List.map_cons, walkFrom_visit hp' hpush', ih hproper]
    · rfl
    · exact fun c hc => (List.mem_append.mp hc).elim (fun hc => hreach c (hnew c hc)) (hr c)

theorem Isomorphism.visited (hi : g.Isomorphism root g' root' f) (hn : g.OnlyNodes root)
    (hn' : g'.OnlyNodes root') : (g'.walk root').visited = (g.walk root).visited.map f := by
  have hfault := walk_fault_eq_none hn
  have hfault' := walk_fault_eq_none hn'
  rw [hn.walk_eq] at hfault
  rw [hn'.walk_eq] at hfault'
  have hstep : g'.walkFrom (g.size + 1 + (g'.size + 1)) (Pending.map f ⟨[root], [root]⟩) = _ :=
    hi.walkFrom hn hn' hn.proper (List.forall_mem_singleton.mpr .refl)
  rw [walkFrom_add hfault, Nat.add_comm, Pending.map, List.map_singleton, hi.root_eq,
    walkFrom_add hfault'] at hstep
  rw [hn.walk_eq, hn'.walk_eq, hstep]

end ParserGraph.Graph
