import Mathlib.Data.Finset.Card
import Mathlib.Data.Finset.Range
import ParserGraph.Proofs.Graph.Resolution

/-!
# What a compaction does

Compaction marks a node before it follows the node's edges, so while it runs, edges of marked nodes
may still lead to forward references. What a run leaves is simple all the same: it finishes some
nodes that were not marked, and touches no others (`Graph.finish`). To finish a node is to mark it
and to redirect each of its edges to the node that the chain behind it comes to. Forward references
stay as they are, so chains come to the same nodes all along, and it does not matter when each edge
is redirected.

`compactFrom_spec` shows by induction on the depth, over any set of objects that edges and chains do
not leave and in which all chains come to a node, that a run does not fail and which nodes it
finishes; one node at a time in `compactChildren_spec`. From it follow `compact_spec` and that a
compaction keeps the marks closed (`MarksClosed.finish`).
-/

namespace ParserGraph

/-- A parser with all its edges redirected; the target of a forward reference stays. -/
def Parser.mapChildren (f : Object → Object) : Parser → Parser
  | .sequence parsers => .sequence (parsers.map f)
  | .alternation first second => .alternation (f first) (f second)
  | .repetition parser => .repetition (f parser)
  | .map parser transform => .map (f parser) transform
  | p => p

/-- Redirects the edges from the index `i` on, one after the other. -/
def Parser.setChildren : Nat → List Object → Parser → Parser
  | _, [], p => p
  | i, o :: os, p => setChildren (i + 1) os (p.setChild i o)

namespace Parser

@[simp] theorem isForward_setChild (i : Nat) (o : Object) (p : Parser) :
    (p.setChild i o).isForward = p.isForward := by
  cases p with
  | alternation a b => rcases i with _ | _ | i <;> rfl
  | _ => rfl

@[simp] theorem isForward_setChildren (i : Nat) (os : List Object) (p : Parser) :
    (p.setChildren i os).isForward = p.isForward := by
  induction os generalizing i p with
  | nil => rfl
  | cons o os ih => rw [setChildren, ih, isForward_setChild]

@[simp] theorem isForward_mapChildren (f : Object → Object) (p : Parser) :
    (p.mapChildren f).isForward = p.isForward := by
  cases p <;> rfl

theorem setChildren_forward (i : Nat) (os : List Object) (name : Value) (target : Option NodeId) :
    (forward name target).setChildren i os = forward name target := by
  induction os generalizing i with
  | nil => rfl
  | cons o os ih => exact ih (i + 1)

theorem children_mapChildren (f : Object → Object) {p : Parser} (h : p.isForward = false) :
    (p.mapChildren f).children = p.children.map f := by
  cases p with
  | forward => cases h
  | _ => rfl

theorem mem_children_setChild {i : Nat} {o c : Object} {p : Parser}
    (h : c ∈ (p.setChild i o).children) : c = o ∨ c ∈ p.children := by
  cases p with
  | sequence os => exact (List.mem_or_eq_of_mem_set h).symm
  | alternation a b =>
    rcases i with _ | _ | i <;> simp only [setChild, children, List.mem_cons] at h ⊢ <;> tauto
  | repetition a | map a t =>
    simp only [setChild, children, List.mem_singleton] at h ⊢
    split at h <;> simp [h]
  | _ => exact .inr h

theorem mem_children_setChildren {i : Nat} {os : List Object} {c : Object} {p : Parser}
    (h : c ∈ (p.setChildren i os).children) : c ∈ os ∨ c ∈ p.children := by
  induction os generalizing i p with
  | nil => exact .inr h
  | cons o os ih =>
    rcases ih h with h | h
    · exact .inl (List.mem_cons_of_mem _ h)
    · rcases mem_children_setChild h with rfl | h
      · exact .inl (List.mem_cons_self ..)
      · exact .inr h

theorem setChildren_sequence (f : Object → Object) (done os : List Object) :
    (sequence (done ++ os)).setChildren done.length (os.map f) = sequence (done ++ os.map f) := by
  induction os generalizing done with
  | nil => rfl
  | cons o os ih =>
    have h := ih (done ++ [f o])
    simp only [List.append_assoc, List.singleton_append, List.length_append,
      List.length_singleton] at h
    simpa [setChildren, setChild, List.set_append_right] using h

/-- Redirecting the edges one after the other redirects them all. -/
theorem setChildren_map_children (f : Object → Object) {p : Parser} (h : p.isForward = false) :
    p.setChildren 0 (p.children.map f) = p.mapChildren f := by
  cases p with
  | sequence os => exact setChildren_sequence f [] os
  | forward => cases h
  | _ => rfl

end Parser

namespace Graph

variable {g g' : Graph} {C : Object → Prop}

/-- Where an edge leads once the chain behind it is passed over. -/
def redirect (g : Graph) : Object → Object
  | .node a =>
    match g.resolve a with
    | .ok r => .node r
    | .error _ => .node a
  | o => o

theorem redirect_of_resolve {a r : NodeId} (h : g.resolve a = .ok r) :
    g.redirect (.node a) = .node r := by
  simp [redirect, h]

theorem SameForwards.redirect (h : g.SameForwards g') : g'.redirect = g.redirect := by
  funext o
  cases o with
  | node a =>
    cases hr : g.resolve a with
    | ok r => rw [redirect_of_resolve hr, redirect_of_resolve (h.resolve_eq_ok.mpr hr)]
    | error f =>
      cases hr' : g'.resolve a with
      | ok r => rw [h.resolve_eq_ok.mp hr'] at hr; cases hr
      | error f' => simp [Graph.redirect, hr, hr']
  | _ => rfl

/-- Marks nodes and redirects all their edges. -/
def finish (g : Graph) (B : Finset NodeId) : Graph where
  nodes := g.nodes.mapIdx fun id node =>
    if id ∈ B then { parser := node.parser.mapChildren g.redirect, compacted := true } else node

/-- Redirects edges of one node, from the index `i` on. -/
def setChildren (g : Graph) (id : NodeId) (i : Nat) (os : List Object) : Graph :=
  g.update id fun node => { node with parser := node.parser.setChildren i os }

/-! ## Nodes after a change -/

theorem node?_finish (B : Finset NodeId) (id : NodeId) :
    (g.finish B).node? (.node id) = (g.node? (.node id)).map fun node =>
      if id ∈ B then { parser := node.parser.mapChildren g.redirect, compacted := true }
      else node :=
  Array.getElem?_mapIdx

theorem node?_finish_of_mem {B : Finset NodeId} {id : NodeId} (h : id ∈ B) :
    (g.finish B).node? (.node id) = (g.node? (.node id)).map fun node =>
      { parser := node.parser.mapChildren g.redirect, compacted := true } := by
  simp only [node?_finish, h, ↓reduceIte]

theorem node?_finish_of_not_mem {B : Finset NodeId} {id : NodeId} (h : id ∉ B) :
    (g.finish B).node? (.node id) = g.node? (.node id) := by
  simp [node?_finish, h]

theorem parser?_finish_of_mem {B : Finset NodeId} {id : NodeId} (h : id ∈ B) :
    (g.finish B).parser? (.node id) =
      (g.parser? (.node id)).map (·.mapChildren g.redirect) := by
  simp only [parser?, node?_finish_of_mem h, Option.map_map]
  rfl

theorem parser?_finish_of_not_mem {B : Finset NodeId} {id : NodeId} (h : id ∉ B) :
    (g.finish B).parser? (.node id) = g.parser? (.node id) := by
  simp only [parser?, node?_finish_of_not_mem h]

/-- An edge of a finished node was redirected. -/
theorem Child.of_finish {B : Finset NodeId} {b : NodeId} {o : Object}
    (h : (g.finish B).Child (.node b) o) (hb : b ∈ B) (hf : g.isForward (.node b) = false) :
    ∃ c, g.Child (.node b) c ∧ o = g.redirect c := by
  obtain ⟨q, hq, ho⟩ := h
  rw [parser?_finish_of_mem hb] at hq
  obtain ⟨p, hp, rfl⟩ := Option.map_eq_some_iff.mp hq
  rw [Parser.children_mapChildren _ (isForward_eq hp ▸ hf)] at ho
  obtain ⟨c, hc, rfl⟩ := List.mem_map.mp ho
  exact ⟨c, ⟨p, hp, hc⟩, rfl⟩

theorem child_finish_of_not_mem {B : Finset NodeId} {b : NodeId} {o : Object} (hb : b ∉ B) :
    (g.finish B).Child (.node b) o ↔ g.Child (.node b) o := by
  simp only [Child, parser?_finish_of_not_mem hb]

@[simp] theorem size_finish (B : Finset NodeId) : (g.finish B).size = g.size :=
  Array.size_mapIdx

@[simp] theorem size_setChildren (id : NodeId) (i : Nat) (os : List Object) :
    (g.setChildren id i os).size = g.size :=
  size_update ..

theorem parser?_setChildren (id : NodeId) (i : Nat) (os : List Object) (j : NodeId) :
    (g.setChildren id i os).parser? (.node j) =
      if id = j then (g.parser? (.node j)).map (·.setChildren i os) else g.parser? (.node j) := by
  simp only [parser?, setChildren, node?_update]
  split <;> cases g.node? (.node j) <;> rfl

/-- A change that keeps forward references, and makes none, keeps where chains come to. -/
theorem SameForwards.of_map {f : NodeId → Parser → Parser} (hs : g'.size = g.size)
    (h : ∀ id, g'.parser? (.node id) = (g.parser? (.node id)).map (f id))
    (hf : ∀ id name target, f id (.forward name target) = .forward name target)
    (hn : ∀ id p, (f id p).isForward = p.isForward) : g.SameForwards g' := by
  refine ⟨hs, fun id name target => ?_⟩
  rw [h]
  cases hp : g.parser? (.node id) with
  | none => simp
  | some p =>
    cases p with
    | forward => simp [hf]
    | _ =>
      refine iff_of_false ?_ (by simp)
      intro hc
      have := congrArg Parser.isForward (Option.some.inj hc)
      rw [hn] at this
      cases this

theorem sameForwards_finish (B : Finset NodeId) : g.SameForwards (g.finish B) := by
  refine .of_map (f := fun id p => if id ∈ B then p.mapChildren g.redirect else p)
    (size_finish B) (fun id => ?_) (fun id name target => ?_) fun id p => ?_
  · by_cases h : id ∈ B
    · simp [parser?_finish_of_mem h, h]
    · simp [parser?_finish_of_not_mem h, h]
  · split <;> rfl
  · split <;> simp

theorem sameForwards_setChildren (id : NodeId) (i : Nat) (os : List Object) :
    g.SameForwards (g.setChildren id i os) := by
  refine .of_map (f := fun j p => if id = j then p.setChildren i os else p)
    (size_setChildren ..) (fun j => ?_) (fun j name target => ?_) fun j p => ?_
  · rw [parser?_setChildren]
    split <;> simp
  · split <;> simp [Parser.setChildren_forward]
  · split <;> simp

theorem sameForwards_mark (id : NodeId) : g.SameForwards (g.mark id) :=
  ⟨size_mark g id, fun j name target => by rw [parser?_mark]⟩

theorem SameForwards.trans {g'' : Graph} (h : g.SameForwards g') (h' : g'.SameForwards g'') :
    g.SameForwards g'' :=
  ⟨h'.size.trans h.size, fun id name target =>
    (h'.parser? id name target).trans (h.parser? id name target)⟩

theorem finish_empty : g.finish ∅ = g :=
  ext_node? fun id => node?_finish_of_not_mem (Finset.notMem_empty id)

/-- Finishing some nodes and then others is finishing them all. -/
theorem finish_finish {B B' : Finset NodeId} (h : ∀ b ∈ B', b ∉ B) :
    (g.finish B).finish B' = g.finish (B ∪ B') := by
  refine ext_node? fun id => ?_
  by_cases hb' : id ∈ B'
  · rw [node?_finish_of_mem hb', node?_finish_of_not_mem (h id hb'),
      node?_finish_of_mem (Finset.mem_union_right B hb'), (sameForwards_finish B).redirect]
  · rw [node?_finish_of_not_mem hb']
    by_cases hb : id ∈ B
    · rw [node?_finish_of_mem hb, node?_finish_of_mem (Finset.mem_union_left B' hb)]
    · rw [node?_finish_of_not_mem hb, node?_finish_of_not_mem (by simp [hb, hb'])]

theorem setChildren_nil (id : NodeId) (i : Nat) : g.setChildren id i [] = g := by
  refine ext_node? fun j => ?_
  simp only [setChildren, node?_update]
  split <;> cases g.node? (.node j) <;> rfl

theorem setChildren_singleton (id : NodeId) (i : Nat) (o : Object) :
    g.setChildren id i [o] = g.setChild id i o := rfl

theorem setChildren_cons (id : NodeId) (i : Nat) (o : Object) (os : List Object) :
    (g.setChildren id i [o]).setChildren id (i + 1) os = g.setChildren id i (o :: os) := by
  refine ext_node? fun j => ?_
  simp only [setChildren, node?_update]
  split <;> cases g.node? (.node j) <;> rfl

/-- Finishing nodes does not get in the way of redirecting edges of another. -/
theorem setChildren_finish {B : Finset NodeId} {id : NodeId} (h : id ∉ B) (i : Nat)
    (os : List Object) : (g.finish B).setChildren id i os = (g.setChildren id i os).finish B := by
  refine ext_node? fun j => ?_
  have hr := (sameForwards_setChildren (g := g) id i os).redirect
  by_cases hj : id = j
  · subst hj
    simp only [setChildren, node?_update, node?_finish_of_not_mem h, ↓reduceIte]
  · simp only [setChildren, node?_finish, node?_update, hj, ↓reduceIte] at hr ⊢
    rw [hr]

/-- A node that is marked, and whose edges are redirected one after the other, is finished. -/
theorem finish_insert {B : Finset NodeId} {id : NodeId} (h : id ∉ B) {p : Parser}
    (hp : g.parser? (.node id) = some p) (hf : p.isForward = false) :
    ((g.mark id).setChildren id 0 (p.children.map g.redirect)).finish B =
      g.finish (insert id B) := by
  refine ext_node? fun j => ?_
  have hr := ((sameForwards_mark (g := g) id).trans
    (sameForwards_setChildren id 0 (p.children.map g.redirect))).redirect
  by_cases hj : id = j
  · subst hj
    rw [node?_finish_of_not_mem h, node?_finish_of_mem (Finset.mem_insert_self id B)]
    simp only [parser?, Option.map_eq_some_iff] at hp
    obtain ⟨node, hn, rfl⟩ := hp
    simp [setChildren, mark, node?_update, hn, Parser.setChildren_map_children _ hf]
  · have hi : j ∈ insert id B ↔ j ∈ B := by simp [Ne.symm hj]
    rw [node?_finish, node?_finish, hr]
    simp only [setChildren, mark, node?_update, hj, ↓reduceIte, hi]

/-! ## Marks after a change -/

theorem marked_iff {o : Object} {node : Node} (hn : g.node? o = some node) :
    g.Marked o ↔ node.compacted = true := by
  simp [Marked, hn]

theorem marked_node {id : NodeId} :
    g.Marked (.node id) ↔ (g.node? (.node id)).any (·.compacted) = true :=
  (Option.any_eq_true ..).symm

/-- That marks are closed can be found out node by node. -/
theorem marksClosed_of_nodes
    (h : ∀ id < g.size, (g.node? (.node id)).any (·.compacted) = true →
      g.isForward (.node id) = false ∧
        ∀ c ∈ ((g.parser? (.node id)).map (·.children)).getD [],
          (g.node? c).any (·.compacted) = true) : g.MarksClosed := by
  refine marksClosed_iff.mpr fun o ho => ?_
  obtain ⟨id, node, rfl, hn⟩ := node?_of_isSome ho.isSome
  obtain ⟨hf, hc⟩ := h id (isSome_node?.mp (by rw [hn]; rfl)) (marked_node.mp ho)
  refine ⟨hf, fun o' ⟨p, hp, ho'⟩ => (Option.any_eq_true ..).mp (hc o' ?_)⟩
  rwa [hp]

theorem marked_finish {B : Finset NodeId} {id : NodeId} :
    (g.finish B).Marked (.node id) ↔ g.Marked (.node id) ∨ id ∈ B ∧ id < g.size := by
  rw [marked_node, marked_node, node?_finish, ← isSome_node?]
  by_cases h : id ∈ B
  · cases g.node? (.node id) <;> simp [h]
  · simp [h]

theorem Marked.finish {o : Object} (h : g.Marked o) (B : Finset NodeId) :
    (g.finish B).Marked o := by
  obtain ⟨id, node, rfl, -⟩ := node?_of_isSome h.isSome
  exact marked_finish.mpr (.inl h)

theorem marked_setChildren {id : NodeId} {i : Nat} {os : List Object} {o : Object} :
    (g.setChildren id i os).Marked o ↔ g.Marked o := by
  cases o with
  | node j =>
    rw [marked_node, marked_node, setChildren, node?_update]
    split <;> cases g.node? (.node j) <;> rfl
  | _ => exact Iff.rfl

theorem marked_mark {id j : NodeId} :
    (g.mark id).Marked (.node j) ↔ g.Marked (.node j) ∨ id = j ∧ j < g.size := by
  rw [marked_node, marked_node, mark, node?_update, ← isSome_node?]
  by_cases h : id = j
  · cases g.node? (.node j) <;> simp [h]
  · simp [h]

/-- The nodes that no compaction has visited. -/
def unmarked (g : Graph) : Finset NodeId :=
  {id ∈ Finset.range g.size | (g.node? (.node id)).any (·.compacted) = false}

theorem mem_unmarked {id : NodeId} :
    id ∈ g.unmarked ↔ id < g.size ∧ ¬ g.Marked (.node id) := by
  simp [unmarked, marked_node]

theorem card_unmarked_le_size (g : Graph) : g.unmarked.card ≤ g.size :=
  (Finset.card_filter_le _ _).trans_eq (Finset.card_range _)

theorem card_unmarked_le (hs : g'.size = g.size)
    (hm : ∀ id, g.Marked (.node id) → g'.Marked (.node id)) :
    g'.unmarked.card ≤ g.unmarked.card := by
  refine Finset.card_le_card fun id h => ?_
  rw [mem_unmarked] at h ⊢
  exact ⟨hs ▸ h.1, mt (hm id) h.2⟩

theorem card_unmarked_mark {id : NodeId} (h : id ∈ g.unmarked) :
    (g.mark id).unmarked.card < g.unmarked.card := by
  refine Finset.card_lt_card ((Finset.ssubset_iff_of_subset fun j hj => ?_).mpr ⟨id, h, ?_⟩)
  · rw [mem_unmarked, marked_mark] at hj
    exact mem_unmarked.mpr ⟨size_mark g id ▸ hj.1, fun hm => hj.2 (.inl hm)⟩
  · rw [mem_unmarked, marked_mark]
    exact fun hn => hn.2 (.inr ⟨rfl, (mem_unmarked.mp h).1⟩)

/-! ## Regions -/

/-- Objects that edges and chains do not lead away from, and whose chains come to a node. -/
def Region (g : Graph) (C : Object → Prop) : Prop :=
  ∀ o, C o → ∃ a r p, o = .node a ∧ g.resolve a = .ok r ∧ C (.node r) ∧
    g.parser? (.node r) = some p ∧ p.isForward = false ∧ ∀ c ∈ p.children, C c

/-- A resolvable root reaches such a region. -/
theorem Resolvable.region {root : Object} (h : g.Resolvable root) :
    g.Region (g.Reaches root) := by
  intro o ho
  obtain ⟨a, r, p, rfl, hr, hro, hp, hf⟩ := h.resolve ho
  exact ⟨a, r, p, rfl, hr, hro, hp, hf, fun c hc => hro.tail ⟨p, hp, hc⟩⟩

theorem Region.redirect (h : g.Region C) {o : Object} (ho : C o) : C (g.redirect o) := by
  obtain ⟨a, r, p, rfl, hr, hro, -⟩ := h o ho
  rwa [redirect_of_resolve hr]

theorem Region.of_map (h : g.Region C) (hg : g.SameForwards g')
    (hp : ∀ id p, C (.node id) → g.parser? (.node id) = some p → (∀ c ∈ p.children, C c) →
      p.isForward = false →
      ∃ p', g'.parser? (.node id) = some p' ∧ p'.isForward = false ∧ ∀ c ∈ p'.children, C c) :
    g'.Region C := by
  intro o ho
  obtain ⟨a, r, p, rfl, hr, hro, hpr, hf, hc⟩ := h o ho
  obtain ⟨p', hp', hf', hc'⟩ := hp r p hro hpr hc hf
  exact ⟨a, r, p', rfl, hg.resolve_eq_ok.mpr hr, hro, hp', hf', hc'⟩

theorem Region.finish (h : g.Region C) (B : Finset NodeId) : (g.finish B).Region C := by
  refine h.of_map (sameForwards_finish B) fun id p _ hp hc hf => ?_
  by_cases hb : id ∈ B
  · refine ⟨_, by rw [parser?_finish_of_mem hb, hp]; rfl, by simpa using hf, ?_⟩
    rw [Parser.children_mapChildren _ hf]
    exact List.forall_mem_map.mpr fun c hm => h.redirect (hc c hm)
  · exact ⟨p, by rw [parser?_finish_of_not_mem hb, hp], hf, hc⟩

theorem Region.setChildren (h : g.Region C) (id : NodeId) (i : Nat) {os : List Object}
    (hos : ∀ o ∈ os, C o) : (g.setChildren id i os).Region C := by
  refine h.of_map (sameForwards_setChildren id i os) fun j p _ hp hc hf => ?_
  rw [parser?_setChildren, hp]
  split
  · exact ⟨_, rfl, by simpa using hf,
      fun c hm => (Parser.mem_children_setChildren hm).elim (hos c) (hc c)⟩
  · exact ⟨p, rfl, hf, hc⟩

theorem Region.mark (h : g.Region C) (id : NodeId) : (g.mark id).Region C :=
  h.of_map (sameForwards_mark id) fun j p _ hp hc hf => ⟨p, by rw [parser?_mark, hp], hf, hc⟩

/-! ## Which nodes a run finishes -/

/-- Nodes of a region that a run may finish: none was marked, and their edges are redirected to
nodes that are marked by then. -/
structure Finishing (g : Graph) (C : Object → Prop) (B : Finset NodeId) : Prop where
  region {b : NodeId} : b ∈ B → C (.node b)
  isForward {b : NodeId} : b ∈ B → g.isForward (.node b) = false
  fresh {b : NodeId} : b ∈ B → b < g.size ∧ ¬ g.Marked (.node b)
  children {b : NodeId} {c : Object} : b ∈ B → g.Child (.node b) c →
    (g.finish B).Marked (g.redirect c)

theorem Finishing.empty : g.Finishing C ∅ := by
  constructor <;> intro b <;> simp

theorem Finishing.union {B B' : Finset NodeId} (h : g.Finishing C B)
    (h' : (g.finish B).Finishing C B') :
    g.Finishing C (B ∪ B') ∧ (g.finish B).finish B' = g.finish (B ∪ B') := by
  have hd : ∀ b ∈ B', b ∉ B := fun b hb' hb =>
    (h'.fresh hb').2 (marked_finish.mpr (.inr ⟨hb, (h.fresh hb).1⟩))
  have hff := finish_finish (g := g) hd
  refine ⟨⟨fun hb => ?_, fun hb => ?_, fun hb => ?_, fun hb hc => ?_⟩, hff⟩
  · exact (Finset.mem_union.mp hb).elim h.region h'.region
  · refine (Finset.mem_union.mp hb).elim h.isForward fun hb' => ?_
    rw [← (sameForwards_finish B).isForward]
    exact h'.isForward hb'
  · refine (Finset.mem_union.mp hb).elim h.fresh fun hb' => ?_
    obtain ⟨hs, hm⟩ := h'.fresh hb'
    exact ⟨size_finish (g := g) B ▸ hs, fun hm' => hm (hm'.finish B)⟩
  · rw [← hff]
    rcases Finset.mem_union.mp hb with hb | hb'
    · exact (h.children hb hc).finish B'
    · rw [← (sameForwards_finish (g := g) B).redirect]
      refine h'.children hb' ?_
      obtain ⟨p, hp, hcp⟩ := hc
      exact ⟨p, by rw [parser?_finish_of_not_mem (hd _ hb'), hp], hcp⟩

/-- What is said of a graph in which edges of a marked node were redirected holds of the graph
before. -/
theorem Finishing.of_setChildren {B : Finset NodeId} {id : NodeId} {i : Nat} {os : List Object}
    (h : (g.setChildren id i os).Finishing C B) (hm : g.Marked (.node id)) :
    g.Finishing C B ∧ id ∉ B := by
  have hid : id ∉ B := fun hb => (h.fresh hb).2 (marked_setChildren.mpr hm)
  have hs := sameForwards_setChildren (g := g) id i os
  refine ⟨⟨h.region, fun hb => hs.isForward _ ▸ h.isForward hb, fun hb => ?_, ?_⟩, hid⟩
  · obtain ⟨hlt, hn⟩ := h.fresh hb
    exact ⟨hs.size ▸ hlt, fun hm' => hn (marked_setChildren.mpr hm')⟩
  · rintro b c hb ⟨p, hp, hcp⟩
    have hne : id ≠ b := fun he => hid (he ▸ hb)
    have hc := h.children hb ⟨p, by rw [parser?_setChildren, hp]; simp [hne], hcp⟩
    rwa [hs.redirect, ← setChildren_finish hid, marked_setChildren] at hc

/-- Besides the nodes of a run over its children, a node is finished itself. -/
theorem Finishing.visit {B : Finset NodeId} {id : NodeId} {p : Parser}
    (h : (g.mark id).Finishing C B) (hC : C (.node id)) (hp : g.parser? (.node id) = some p)
    (hf : p.isForward = false) (hm : ¬ g.Marked (.node id))
    (hc : ∀ c ∈ p.children, ((g.mark id).finish B).Marked (g.redirect c)) :
    g.Finishing C (insert id B) ∧ id ∉ B := by
  have hlt : id < g.size := by
    rw [← isSome_node?, ← isSome_parser?, hp]
    rfl
  have hid : id ∉ B := fun hb => (h.fresh hb).2 (marked_mark.mpr (.inr ⟨rfl, hlt⟩))
  have hs := sameForwards_mark (g := g) id
  -- A node that is marked after the run over the children is marked in the end.
  have key : ∀ o, ((g.mark id).finish B).Marked o → (g.finish (insert id B)).Marked o := by
    intro o ho
    obtain ⟨j, node, rfl, -⟩ := node?_of_isSome ho.isSome
    rw [marked_finish, marked_mark, size_mark] at ho
    rw [marked_finish, Finset.mem_insert]
    tauto
  refine ⟨⟨fun hb => ?_, fun hb => ?_, fun hb => ?_, fun hb hch => ?_⟩, hid⟩
  · rcases Finset.mem_insert.mp hb with rfl | hb
    exacts [hC, h.region hb]
  · rcases Finset.mem_insert.mp hb with rfl | hb
    exacts [isForward_eq hp ▸ hf, hs.isForward _ ▸ h.isForward hb]
  · rcases Finset.mem_insert.mp hb with rfl | hb
    · exact ⟨hlt, hm⟩
    · obtain ⟨hlt, hn⟩ := h.fresh hb
      exact ⟨size_mark g id ▸ hlt, fun hm' => hn (marked_mark.mpr (.inl hm'))⟩
  · refine key _ ?_
    rcases Finset.mem_insert.mp hb with rfl | hb
    · obtain ⟨q, hq, hcq⟩ := hch
      obtain rfl := Option.some.inj (hp.symm.trans hq)
      exact hc _ hcq
    · rw [← hs.redirect]
      exact h.children hb (by simpa only [Child, parser?_mark] using hch)

/-- A run from an object ended well: it gives the node behind the object, and has finished some
nodes of the region. -/
def CompactsTo (g : Graph) (C : Object → Prop) (o : Object)
    (result : Except Fault NodeId × Graph) : Prop :=
  ∃ id B, result = (.ok id, g.finish B) ∧ g.redirect o = .node id ∧ g.Finishing C B ∧
    (g.finish B).Marked (.node id)

/-- A run over the children of a node, from the index `i` on, ended well: their edges are
redirected, and some nodes finished, until each of the edges leads to a marked node. -/
def RedirectsTo (g : Graph) (C : Object → Prop) (id : NodeId) (i : Nat) (os : List Object)
    (result : Except Fault Unit × Graph) : Prop :=
  ∃ B, result = (.ok (), (g.setChildren id i (os.map g.redirect)).finish B) ∧ g.Finishing C B ∧
    id ∉ B ∧ ∀ o ∈ os, (g.finish B).Marked (g.redirect o)

theorem RedirectsTo.nil {id : NodeId} {i : Nat} : g.RedirectsTo C id i [] (.ok (), g) :=
  ⟨∅, by simp [finish_empty, setChildren_nil], .empty, Finset.notMem_empty id, by simp⟩

/-- A run over the first child, and then one over the others. -/
theorem RedirectsTo.cons {id t : NodeId} {i : Nat} {o : Object} {os : List Object}
    {B : Finset NodeId} {result : Except Fault Unit × Graph} (hm : g.Marked (.node id))
    (ht : g.redirect o = .node t) (hB : g.Finishing C B) (htm : (g.finish B).Marked (.node t))
    (h : ((g.finish B).setChildren id i [.node t]).RedirectsTo C id (i + 1) os result) :
    g.RedirectsTo C id i (o :: os) result := by
  have hid : id ∉ B := fun hb => (hB.fresh hb).2 hm
  -- The graph for the remaining children, with the edge at the index `i` redirected.
  obtain ⟨g₁, hg₁⟩ : ∃ g₁, g₁ = (g.finish B).setChildren id i [.node t] := ⟨_, rfl⟩
  rw [← hg₁] at h
  obtain ⟨B', rfl, hB', hid', hos'⟩ := h
  have hsame : g.SameForwards g₁ :=
    hg₁ ▸ (sameForwards_finish B).trans (sameForwards_setChildren id i [.node t])
  obtain ⟨hun, hff⟩ := hB.union ((hg₁ ▸ hB').of_setChildren (hm.finish B)).1
  have hids : id ∉ B ∪ B' := by simp [hid, hid']
  have hfin : g₁.finish B' = (g.setChildren id i [.node t]).finish (B ∪ B') := by
    rw [hg₁, ← setChildren_finish hid', hff, setChildren_finish hids]
  refine ⟨B ∪ B', ?_, hun, hids, ?_⟩
  · rw [hsame.redirect, ← setChildren_finish hid', hfin, setChildren_finish hids, setChildren_cons,
      List.map_cons, ht]
  · intro o' ho'
    rcases List.mem_cons.mp ho' with rfl | ho'
    · rw [ht, ← hff]
      exact htm.finish B'
    · have := hos' o' ho'
      rwa [hfin, hsame.redirect, ← setChildren_finish hids, marked_setChildren] at this

/-- The children of a marked node, one after the other. -/
theorem compactChildren_spec {compact : Object → Graph → Except Fault NodeId × Graph} {depth : Nat}
    (hcompact : ∀ (g : Graph) o, g.Region C → C o → g.unmarked.card < depth →
      g.CompactsTo C o (compact o g))
    {id : NodeId} {i : Nat} {os : List Object} (hR : g.Region C) (hos : ∀ o ∈ os, C o)
    (hd : g.unmarked.card < depth) (hm : g.Marked (.node id)) :
    g.RedirectsTo C id i os (compactChildren compact id i os g) := by
  induction os generalizing i g with
  | nil => exact .nil
  | cons o os ih =>
    obtain ⟨hCo, hos⟩ := List.forall_mem_cons.mp hos
    obtain ⟨t, B, hr, ht, hB, htm⟩ := hcompact g o hR hCo hd
    simp only [compactChildren, hr]
    rw [← setChildren_singleton]
    have hmarks {o' : Object} (ho' : g.Marked o') :
        ((g.finish B).setChildren id i [.node t]).Marked o' :=
      marked_setChildren.mpr (ho'.finish B)
    refine .cons hm ht hB htm (ih ?_ hos ?_ (hmarks hm))
    · exact (hR.finish B).setChildren id i (List.forall_mem_singleton.mpr (ht ▸ hR.redirect hCo))
    · exact (card_unmarked_le (by simp) fun j hj => hmarks hj).trans_lt hd

theorem RedirectsTo.exists_eq_ok {id : NodeId} {i : Nat} {os : List Object}
    {result : Except Fault Unit × Graph} (h : g.RedirectsTo C id i os result) :
    ∃ g', result = (.ok (), g') := by
  obtain ⟨B, hresult, -⟩ := h
  exact ⟨_, hresult⟩

/-- A node that was not marked, with a run over its children. -/
theorem RedirectsTo.visit {a r : NodeId} {p : Parser} (hr : g.resolve a = .ok r)
    (hC : C (.node r)) (hp : g.parser? (.node r) = some p) (hf : p.isForward = false)
    (hm : ¬ g.Marked (.node r)) (h : (g.mark r).RedirectsTo C r 0 p.children (.ok (), g')) :
    g.CompactsTo C (.node a) (.ok r, g') := by
  obtain ⟨B, hresult, hB, hid, hmc⟩ := h
  have hred := (sameForwards_mark (g := g) r).redirect
  rw [hred] at hmc hresult
  obtain ⟨hins, hid⟩ := hB.visit hC hp hf hm hmc
  have hg' : g' = g.finish (insert r B) := by
    rw [(Prod.mk.inj hresult).2, finish_insert hid hp hf]
  have hlt : r < g.size := isSome_node?.mp (by rw [← isSome_parser?, hp]; rfl)
  refine ⟨r, insert r B, by rw [hg'], redirect_of_resolve hr, hins, ?_⟩
  exact marked_finish.mpr (.inr ⟨Finset.mem_insert_self r B, hlt⟩)

/-- A node that is marked already. -/
theorem CompactsTo.of_marked {a r : NodeId} (hr : g.resolve a = .ok r) (hm : g.Marked (.node r)) :
    g.CompactsTo C (.node a) (.ok r, g) :=
  ⟨r, ∅, by rw [finish_empty], redirect_of_resolve hr, .empty, hm.finish ∅⟩

/-- A run deep enough for the nodes that are not marked yet. -/
theorem compactFrom_spec {depth : Nat} {o : Object} (hR : g.Region C) (ho : C o)
    (hd : g.unmarked.card < depth) : g.CompactsTo C o (compactFrom depth o g) := by
  induction depth generalizing g o with
  | zero => omega
  | succ depth ih =>
    obtain ⟨a, r, p, rfl, hr, hCr, hp, hf, hc⟩ := hR o ho
    obtain ⟨node, hn, rfl⟩ := Option.map_eq_some_iff.mp hp
    simp only [compactFrom, hr, hn]
    split
    · rename_i hm
      exact .of_marked hr ((marked_iff hn).mpr hm)
    · rename_i hm
      have hun : ¬ g.Marked (.node r) := mt (marked_iff hn).mp hm
      have hlt : r < g.size := isSome_node?.mp (by rw [hn]; rfl)
      have hlt' := card_unmarked_mark (mem_unmarked.mpr ⟨hlt, hun⟩)
      have h := compactChildren_spec (i := 0) (fun g o hR ho hd => ih hR ho hd)
        (hR.mark r) hc (by omega) (marked_mark.mpr (.inr ⟨rfl, hlt⟩))
      obtain ⟨g', hg'⟩ := h.exists_eq_ok
      rw [hg'] at h ⊢
      exact h.visit hr hCr hp hf hun

/-- A compaction from a region gives the node behind the object, and finishes nodes of the region
until every edge of theirs leads to a marked node. -/
theorem compact_spec {o : Object} (hR : g.Region C) (ho : C o) : g.CompactsTo C o (g.compact o) :=
  compactFrom_spec hR ho (Nat.lt_succ_of_le g.card_unmarked_le_size)

/-- Where marks were closed they are closed afterwards. -/
theorem MarksClosed.finish {B : Finset NodeId} (h : g.MarksClosed) (hB : g.Finishing C B) :
    (g.finish B).MarksClosed := by
  rw [marksClosed_iff]
  intro o ho
  obtain ⟨id, node, rfl, -⟩ := node?_of_isSome ho.isSome
  rw [(sameForwards_finish B).isForward]
  by_cases hb : id ∈ B
  · refine ⟨hB.isForward hb, fun o' ho' => ?_⟩
    obtain ⟨c, hc, rfl⟩ := ho'.of_finish hb (hB.isForward hb)
    exact hB.children hb hc
  · have hm : g.Marked (.node id) := (marked_finish.mp ho).resolve_right fun hn => hb hn.1
    refine ⟨h.isForward hm, fun o' ho' => ?_⟩
    exact (h.child hm ((child_finish_of_not_mem hb).mp ho')).finish B

end Graph

end ParserGraph
