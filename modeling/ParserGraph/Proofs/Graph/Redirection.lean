import ParserGraph.Proofs.Graph.Meaning

/-!
# The effect of a compaction

Which nodes a run of a compaction finishes depends on what was marked before. What it leaves does
not: a node that was marked already, with closed marks, has no edge at a forward reference, so
redirecting its edges changes nothing. So after a compaction from a root that can be resolved, every
node that the root reached and that is no forward reference is marked and has its edges redirected,
and no other node is touched (`MarksClosed.node?_finish`).

As edges are redirected along chains that the root reached anyway, what the given node reaches is
what the root reached, less the forward references (`reaches_redirect`, `reaches_of_finish`).
`compact_redirects` has all of this in one statement.
-/

namespace ParserGraph

/-- A parser whose edges are redirected to where they lead is the same. -/
theorem Parser.mapChildren_eq_self {f : Object → Object} {p : Parser}
    (h : ∀ c ∈ p.children, f c = c) : p.mapChildren f = p := by
  cases p with
  | sequence os => exact congrArg sequence ((List.map_congr_left h).trans (List.map_id' os))
  | alternation a b => rw [mapChildren, h a (by simp [children]), h b (by simp [children])]
  | repetition a | map a t => rw [mapChildren, h a (by simp [children])]
  | _ => rfl

namespace Graph

variable {g g' : Graph} {root o : Object} {B : Finset NodeId} {id j : NodeId}

/-- The second object is the first node on the chain from the first object that is no forward
reference; a node that is none is its own. -/
def StandsFor (g : Graph) (o o' : Object) : Prop :=
  ∃ a r p, o = .node a ∧ o' = .node r ∧ g.Leads a r ∧ g.parser? o' = some p ∧ p.isForward = false

/-- A node that is no forward reference is not redirected. -/
theorem redirect_of_not_forward (h : g.isForward o = false) : g.redirect o = o := by
  cases o with
  | node a => exact redirect_of_resolve (resolve_self h)
  | _ => rfl

theorem Next.redirect {a b r : NodeId} (hn : g.Next a b) (h : g.resolve a = .ok r) :
    g.redirect (.node a) = g.redirect (.node b) := by
  rw [redirect_of_resolve h, redirect_of_resolve (hn.resolve h)]

theorem Resolvable.standsFor (h : g.Resolvable root) (ho : g.Reaches root o) :
    g.StandsFor o (g.redirect o) := by
  obtain ⟨a, r, p, rfl, hr, -, hp, hf⟩ := h.resolve ho
  rw [redirect_of_resolve hr]
  exact ⟨a, r, p, rfl, rfl, (resolve_eq_ok_iff.mp hr).1, hp, hf⟩

/-! ## Nodes -/

/-- Where marks are closed, redirecting the edges of a marked node changes nothing. -/
theorem MarksClosed.mapChildren_redirect (hm : g.MarksClosed) {node : Node}
    (hn : g.node? o = some node) (hc : node.compacted = true) :
    node.parser.mapChildren g.redirect = node.parser := by
  have hp : g.parser? o = some node.parser := by rw [parser?, hn]; rfl
  exact Parser.mapChildren_eq_self fun c hcc =>
    redirect_of_not_forward (hm.isForward (hm.child ⟨node, hn, hc⟩ ⟨_, hp, hcc⟩))

/-- A node is finished, whether the run has done so or an earlier one. -/
theorem MarksClosed.node?_finish (hm : g.MarksClosed) (h : (g.finish B).Marked (.node j)) :
    (g.finish B).node? (.node j) = (g.node? (.node j)).map fun node =>
      { parser := node.parser.mapChildren g.redirect, compacted := true } := by
  by_cases hb : j ∈ B
  · exact node?_finish_of_mem hb
  · obtain ⟨node, hn, hc⟩ := h
    rw [node?_finish_of_not_mem hb] at hn ⊢
    rw [hn, Option.map_some, hm.mapChildren_redirect hn hc, ← hc]

/-- The edges of a finished node are those of the node before, redirected. -/
theorem MarksClosed.child_finish (hm : g.MarksClosed) (h : (g.finish B).Marked (.node j))
    (hf : g.isForward (.node j) = false) :
    (g.finish B).Child (.node j) o ↔ ∃ c, g.Child (.node j) c ∧ o = g.redirect c := by
  have hp : (g.finish B).parser? (.node j) =
      (g.parser? (.node j)).map (·.mapChildren g.redirect) := by
    simp only [parser?, hm.node?_finish h, Option.map_map]
    rfl
  cases hq : g.parser? (.node j) with
  | none => simp [Child, hp, hq]
  | some p =>
    simp [Child, hp, hq, Parser.children_mapChildren _ (isForward_eq hq ▸ hf), eq_comm]

/-! ## What is reached -/

/-- What is reached stays reached, by redirected edges, once the chain behind it is passed over. -/
theorem reaches_redirect (hm : g.MarksClosed) (hm' : (g.finish B).MarksClosed)
    (hr : g.Resolvable root) (hroot : (g.finish B).Marked (g.redirect root))
    (ho : g.Reaches root o) : (g.finish B).Reaches (g.redirect root) (g.redirect o) := by
  induction ho with
  | refl => exact .refl
  | @tail b c hb hc ih =>
    obtain ⟨a, r, p, rfl, hra, -⟩ := hr.resolve hb
    by_cases hf : g.isForward (.node a) = false
    · rw [redirect_of_not_forward hf] at ih
      have hmark : (g.finish B).Marked (.node a) := (hm' _ hroot _ ih).1
      exact ih.tail ((hm.child_finish hmark hf).mpr ⟨c, hc, rfl⟩)
    · -- An edge of a forward reference goes on along the chain.
      obtain ⟨q, hq, hcq⟩ := hc
      rw [isForward_eq hq] at hf
      cases q with
      | forward name target =>
        cases target with
        | none => cases hcq
        | some t =>
          obtain rfl := List.mem_singleton.mp hcq
          rwa [← Next.redirect ⟨name, hq⟩ hra]
      | _ => exact absurd rfl hf

/-- What is reached by redirected edges was reached before, and is no forward reference. -/
theorem reaches_of_finish (hm : g.MarksClosed) (hm' : (g.finish B).MarksClosed)
    (hr : g.Resolvable root) (hroot : (g.finish B).Marked (g.redirect root))
    (ho : (g.finish B).Reaches (g.redirect root) o) :
    g.Reaches root o ∧ g.isForward o = false := by
  have hf : g.isForward o = false := by
    rw [← (sameForwards_finish B).isForward]
    exact (hm' _ hroot _ ho).2
  refine ⟨?_, hf⟩
  clear hf
  induction ho with
  | refl => exact hr.region.redirect .refl
  | @tail b c hb hc ih =>
    obtain ⟨a, r, p, rfl, -⟩ := hr.resolve ih
    obtain ⟨hmark, hf⟩ := hm' _ hroot _ hb
    rw [(sameForwards_finish B).isForward] at hf
    obtain ⟨d, hd, rfl⟩ := (hm.child_finish hmark hf).mp hc
    exact hr.region.redirect (ih.tail hd)

/-! ## The whole effect -/

/-- What a graph is after a compaction from a root that gave a node. -/
structure Redirected (g : Graph) (root : Object) (g' : Graph) (id : NodeId) : Prop where
  /-- The node is the one behind the root. -/
  standsFor : g.StandsFor root (.node id)
  root_eq : g.isForward root = false → root = .node id
  /-- Each node that the root reached and that is no forward reference is marked. It is the parser
  that it was, but that each child, in its place, is the node that it stood for. -/
  finished {j : NodeId} {p : Parser} : g.Reaches root (.node j) → g.parser? (.node j) = some p →
    p.isForward = false → ∃ p', g'.node? (.node j) = some { parser := p', compacted := true } ∧
      p.Similar g.StandsFor p' ∧ List.Forall₂ g.StandsFor p.children p'.children
  /-- Forward references keep their names, targets and marks. -/
  forward {j : NodeId} : g.isForward (.node j) = true → g'.node? (.node j) = g.node? (.node j)
  /-- A node owns the list of its children: a list that two sequences share is no part of a graph. -/
  unreached {j : NodeId} : ¬ g.Reaches root (.node j) → g'.node? (.node j) = g.node? (.node j)
  reaches_iff {o : Object} : g'.Reaches (.node id) o ↔ g.Reaches root o ∧ g.isForward o = false

/-- A compaction from a root that can be resolved gives the node behind the root, and leaves the
graph with the edges redirected that the root reached, and nothing else changed. -/
theorem compact_redirects (hm : g.MarksClosed) (hr : g.Resolvable root) :
    ∃ id g', g.compact root = (.ok id, g') ∧ g.Redirected root g' id := by
  obtain ⟨id, B, hc, hroot, hB, hid⟩ := compact_spec hr.region .refl
  have hm' := hm.finish hB
  rw [← hroot] at hid
  refine ⟨id, g.finish B, hc, hroot ▸ hr.standsFor .refl, fun hf => ?_, fun {j p} hj hp hf => ?_,
    fun hf => ?_, fun hj => ?_, fun {o} => ⟨fun ho => ?_, fun ⟨ho, hf⟩ => ?_⟩⟩
  · rw [← hroot, redirect_of_not_forward hf]
  · have hstands : ∀ c ∈ p.children, g.StandsFor c (g.redirect c) := fun c hc =>
      hr.standsFor (hj.tail ⟨p, hp, hc⟩)
    have hself : g.redirect (.node j) = .node j :=
      redirect_of_not_forward ((isForward_eq hp).trans hf)
    have hmark := (hm' _ hid _ (reaches_redirect hm hm' hr hid hj)).1
    rw [hself] at hmark
    obtain ⟨node, hn, rfl⟩ := Option.map_eq_some_iff.mp hp
    refine ⟨node.parser.mapChildren g.redirect, ?_, Parser.similar_mapChildren hstands, ?_⟩
    · rw [hm.node?_finish hmark, hn]
      rfl
    · rw [Parser.children_mapChildren _ hf]
      exact List.forall₂_map_right_iff.mpr (List.forall₂_same.mpr hstands)
  · exact node?_finish_of_not_mem fun hb => by simp [hB.isForward hb] at hf
  · exact node?_finish_of_not_mem fun hb => hj (hB.region hb)
  · exact reaches_of_finish hm hm' hr hid (hroot ▸ ho)
  · rw [← hroot, ← redirect_of_not_forward hf]
    exact reaches_redirect hm hm' hr hid ho

theorem ring_redirected :
    ring.MarksClosed ∧ ring.Resolvable (.node 0) ∧
      ∃ id g', ring.compact (.node 0) = (.ok id, g') ∧ ring.Redirected (.node 0) g' id := by
  have hm : ring.MarksClosed := marksClosed_of_nodes (by decide)
  have hr : ring.Resolvable (.node 0) := resolvable_of_checkResolvable rfl
  exact ⟨hm, hr, compact_redirects hm hr⟩

end Graph

end ParserGraph
