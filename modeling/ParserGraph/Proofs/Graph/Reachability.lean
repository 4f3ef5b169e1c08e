import Mathlib.Logic.Relation
import ParserGraph.Graph.Construction
import ParserGraph.Graph.Compaction

/-!
# Edges, marks and what can be reached

A graph is known by what its nodes hold (`ext_node?`), so each change of a graph is described by the
nodes after it. `Graph.Reaches` follows edges of any kind, those of forward references included.

The marks of a graph are closed if a marked node reaches marked nodes only, none of them a forward
reference. As marks are looked at one edge at a time, this is a matter of the edges of the marked
nodes (`marksClosed_iff`).
-/

namespace ParserGraph.Graph

variable {g g' : Graph}

/-! ## Nodes after a change -/

theorem ext_node? (h : ∀ id, g.node? (.node id) = g'.node? (.node id)) : g = g' := by
  obtain ⟨nodes⟩ := g
  obtain ⟨nodes'⟩ := g'
  exact congrArg Graph.mk (Array.ext_getElem? h)

theorem isSome_node? {id : NodeId} : (g.node? (.node id)).isSome ↔ id < g.size := by
  simp [node?, size]

theorem node?_of_isSome {o : Object} (h : (g.node? o).isSome) :
    ∃ id node, o = .node id ∧ g.node? (.node id) = some node := by
  cases o with
  | node id =>
    obtain ⟨node, hn⟩ := Option.isSome_iff_exists.mp h
    exact ⟨id, node, rfl, hn⟩
  | _ => cases h

theorem exists_of_parser? {o : Object} {p : Parser} (h : g.parser? o = some p) :
    ∃ id, o = .node id := by
  cases o with
  | node id => exact ⟨id, rfl⟩
  | _ => cases h

theorem isSome_parser? {o : Object} : (g.parser? o).isSome = (g.node? o).isSome :=
  Option.isSome_map

theorem node?_update (g : Graph) (id j : NodeId) (f : Node → Node) :
    (g.update id f).node? (.node j) =
      if id = j then (g.node? (.node j)).map f else g.node? (.node j) :=
  Array.getElem?_modify

theorem node?_push (g : Graph) (p : Parser) (j : NodeId) :
    (g.push p).node? (.node j) =
      if j = g.size then some { parser := p } else g.node? (.node j) :=
  Array.getElem?_push

theorem parser?_push_self (g : Graph) (p : Parser) : (g.push p).parser? (.node g.size) = some p := by
  simp [parser?, node?_push]

/-- A node that is made leaves those that exist as they are. -/
theorem parser?_push_of_some {o : Object} {q : Parser} (h : g.parser? o = some q) (p : Parser) :
    (g.push p).parser? o = some q := by
  obtain ⟨id, rfl⟩ := exists_of_parser? h
  have hid : id < g.size := by
    rw [← isSome_node?, ← isSome_parser?, h]
    rfl
  simpa only [parser?, node?_push, if_neg (Nat.ne_of_lt hid)] using h

/-- An operator goes on with the parser of its operand. -/
theorem operand_bind {α : Type} {o : Object} {p : Parser} (h : g.parser? o = some p)
    (f : Parser → Build α) : (operand o >>= f) g = f p g := by
  have ho : operand o g = .ok (p, g) := by simp [operand, h, Fault.orElse, Except.map]
  show (operand o g >>= fun r => f r.1 r.2) = _
  rw [ho]
  rfl

@[simp] theorem size_update (g : Graph) (id : NodeId) (f : Node → Node) :
    (g.update id f).size = g.size :=
  Array.size_modify

@[simp] theorem size_mark (g : Graph) (id : NodeId) : (g.mark id).size = g.size :=
  size_update ..

@[simp] theorem parser?_mark (g : Graph) (id : NodeId) (o : Object) :
    (g.mark id).parser? o = g.parser? o := by
  cases o with
  | node j =>
    simp only [parser?, mark, node?_update]
    split <;> cases g.node? (.node j) <;> rfl
  | _ => rfl

theorem isForward_eq {o : Object} {p : Parser} (h : g.parser? o = some p) :
    g.isForward o = p.isForward := by
  simp [isForward, h]

/-! ## Marks and edges -/

/-- A node that a compaction has visited. -/
def Marked (g : Graph) (o : Object) : Prop :=
  ∃ node, g.node? o = some node ∧ node.compacted = true

theorem Marked.isSome {o : Object} (h : g.Marked o) : (g.node? o).isSome := by
  obtain ⟨node, hn, -⟩ := h
  simp [hn]

theorem Marked.exists_parser? {o : Object} (h : g.Marked o) : ∃ p, g.parser? o = some p :=
  Option.isSome_iff_exists.mp (isSome_parser? ▸ h.isSome)

/-- An edge from one object to another. -/
def Child (g : Graph) (o o' : Object) : Prop :=
  ∃ p, g.parser? o = some p ∧ o' ∈ p.children

/-- Any number of edges, one after the other. -/
abbrev Reaches (g : Graph) : Object → Object → Prop :=
  Relation.ReflTransGen g.Child

/-- A marked node reaches marked nodes only, and no forward reference. -/
def MarksClosed (g : Graph) : Prop :=
  ∀ o, g.Marked o → ∀ o', g.Reaches o o' → g.Marked o' ∧ g.isForward o' = false

theorem marksClosed_iff :
    g.MarksClosed ↔
      ∀ o, g.Marked o → g.isForward o = false ∧ ∀ o', g.Child o o' → g.Marked o' := by
  constructor
  · exact fun h o ho => ⟨(h o ho o .refl).2, fun o' hc => (h o ho o' (.single hc)).1⟩
  · intro h o ho o' hr
    have hm : g.Marked o' := by
      induction hr with
      | refl => exact ho
      | tail _ hc ih => exact (h _ ih).2 _ hc
    exact ⟨hm, (h o' hm).1⟩

theorem MarksClosed.child (h : g.MarksClosed) {o o' : Object} (ho : g.Marked o)
    (hc : g.Child o o') : g.Marked o' :=
  (marksClosed_iff.mp h o ho).2 o' hc

theorem MarksClosed.isForward (h : g.MarksClosed) {o : Object} (ho : g.Marked o) :
    g.isForward o = false :=
  (marksClosed_iff.mp h o ho).1

theorem MarksClosed.not_forward (h : g.MarksClosed) {o : Object} (ho : g.Marked o) {name : Value}
    {target : Option NodeId} : g.parser? o ≠ some (.forward name target) := by
  intro hp
  have := h.isForward ho
  simp [isForward_eq hp, Parser.isForward] at this

end ParserGraph.Graph
