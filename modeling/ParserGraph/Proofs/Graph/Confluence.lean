import ParserGraph.Proofs.Grammar.Compilation
import ParserGraph.Proofs.Graph.Redirection

/-!
# Compactions in any order

A compaction that follows others starts from a graph in which they have marked nodes and redirected
edges, and it finishes what they have left. Which nodes are finished in the end is known beforehand:
those that the roots reach in the graph as it was, less the forward references and the nodes that
were marked (`Graph.ahead`). One more root adds what it reaches (`compact_ahead`), so compactions one
after the other end in the graph that depends on their roots alone, not on the order of these, nor on
how often each of them comes (`compactAll_ahead`). A root that others have reached before adds
nothing, which is why a second compaction of the same root changes nothing, nor one of a production
that a compilation has passed.

`compactions_agree` has all of this in one statement.
-/

namespace ParserGraph

namespace Graph

variable {g g' : Graph} {root o : Object} {B : Finset NodeId}

/-- Compacts objects one after the other, whatever each of the compactions ends in. -/
def compactAll : List Object → Graph → List (Except Fault NodeId) × Graph
  | [], g => ([], g)
  | o :: os, g =>
    let (result, g') := g.compact o
    let (results, g'') := compactAll os g'
    (result :: results, g'')

/-- The node behind an object. -/
def behind (g : Graph) (o : Object) : NodeId :=
  (g.redirect o).node?.getD 0

open scoped Classical in
/-- The nodes that compactions from the roots will finish. -/
noncomputable def ahead (g : Graph) (roots : List Object) : Finset NodeId :=
  {id ∈ g.unmarked | g.isForward (.node id) = false ∧ ∃ root ∈ roots, g.Reaches root (.node id)}

theorem mem_ahead {roots : List Object} {id : NodeId} :
    id ∈ g.ahead roots ↔ (id < g.size ∧ ¬ g.Marked (.node id)) ∧
      g.isForward (.node id) = false ∧ ∃ root ∈ roots, g.Reaches root (.node id) := by
  simp only [ahead, Finset.mem_filter, mem_unmarked]

theorem ahead_nil : g.ahead [] = ∅ := by
  ext id
  simp [mem_ahead]

theorem ahead_congr {roots roots' : List Object} (h : ∀ o, o ∈ roots ↔ o ∈ roots') :
    g.ahead roots = g.ahead roots' := by
  ext id
  simp only [mem_ahead, h]

/-- A root that another one reaches adds nothing. -/
theorem ahead_cons_of_reaches (h : g.Reaches root o) : g.ahead [o, root] = g.ahead [root] := by
  ext id
  simp only [mem_ahead, List.mem_cons, List.not_mem_nil, or_false, exists_eq_or_imp,
    exists_eq_left, or_iff_right_iff_imp.mpr h.trans]

/-! ## One more compaction -/

/-- What a root reached is marked when the node behind the root is, forward references apart. -/
theorem marked_of_reaches (hm : g.MarksClosed) (hm' : (g.finish B).MarksClosed)
    (hr : g.Resolvable root) (hroot : (g.finish B).Marked (g.redirect root))
    (ho : g.Reaches root o) (hf : g.isForward o = false) : (g.finish B).Marked o := by
  have hreach := reaches_redirect hm hm' hr hroot ho
  rw [redirect_of_not_forward hf] at hreach
  exact (hm' _ hroot _ hreach).1

theorem Resolvable.redirect_eq (hr : g.Resolvable root) :
    g.redirect root = .node (g.behind root) := by
  obtain ⟨a, r, p, rfl, hra, -⟩ := hr.resolve .refl
  rw [behind, redirect_of_resolve hra]
  rfl

/-- The node behind an object is behind itself. -/
theorem Resolvable.behind_behind (hr : g.Resolvable root) :
    g.behind (.node (g.behind root)) = g.behind root := by
  obtain ⟨a, r, p, rfl, hra, -, hp, hf⟩ := hr.resolve .refl
  have hr : g.behind (.node a) = r := by rw [behind, redirect_of_resolve hra]; rfl
  rw [hr, behind, redirect_of_not_forward ((isForward_eq hp).trans hf)]
  rfl

/-- A compaction after others finishes what its root reached and they have left. -/
theorem compact_ahead {done : List Object} (hm : g.MarksClosed)
    (hdone : (g.finish (g.ahead done)).MarksClosed) (hr : g.Resolvable root) :
    (g.finish (g.ahead done)).compact root =
        (.ok (g.behind root), g.finish (g.ahead (root :: done))) ∧
      (g.finish (g.ahead (root :: done))).MarksClosed := by
  obtain ⟨id, B, hc, hroot, hB, hid⟩ := compact_spec (hr.region.finish (g.ahead done)) .refl
  rw [(sameForwards_finish _).redirect, hr.redirect_eq, Object.node.injEq] at hroot
  subst hroot
  have hclosed := hdone.finish hB
  have hdisjoint : ∀ b ∈ B, b ∉ g.ahead done := fun b hb ha =>
    (hB.fresh hb).2 (marked_finish.mpr (.inr ⟨ha, (mem_ahead.mp ha).1.1⟩))
  rw [finish_finish hdisjoint] at hc hid hclosed
  have hunion : g.ahead done ∪ B = g.ahead (root :: done) := by
    ext j
    simp only [Finset.mem_union, mem_ahead, List.exists_mem_cons_iff]
    constructor
    · rintro (⟨hj, hf, hdone⟩ | hb)
      · exact ⟨hj, hf, .inr hdone⟩
      · obtain ⟨hlt, hfresh⟩ := hB.fresh hb
        rw [size_finish] at hlt
        refine ⟨⟨hlt, fun hmj => hfresh (hmj.finish _)⟩, ?_, .inl (hB.region hb)⟩
        exact (sameForwards_finish _).isForward _ ▸ hB.isForward hb
    · rintro ⟨hj, hf, hreach | hdone⟩
      · rw [← hr.redirect_eq] at hid
        have hmark := marked_of_reaches hm hclosed hr hid hreach hf
        rcases marked_finish.mp hmark with hmj | ⟨hb, -⟩
        · exact absurd hmj hj.2
        · rwa [Finset.mem_union, mem_ahead] at hb
      · exact .inl ⟨hj, hf, hdone⟩
  rw [hunion] at hc hclosed
  exact ⟨hc, hclosed⟩

theorem MarksClosed.ahead_nil (hm : g.MarksClosed) : (g.finish (g.ahead [])).MarksClosed := by
  rwa [Graph.ahead_nil, finish_empty]

/-- The first compaction. -/
theorem compact_ahead_nil (hm : g.MarksClosed) (hr : g.Resolvable root) :
    g.compact root = (.ok (g.behind root), g.finish (g.ahead [root])) ∧
      (g.finish (g.ahead [root])).MarksClosed := by
  have h := compact_ahead hm hm.ahead_nil hr
  rwa [ahead_nil, finish_empty] at h

/-! ## Compactions one after the other -/

theorem compactAll_ahead {done os : List Object} (hm : g.MarksClosed)
    (hdone : (g.finish (g.ahead done)).MarksClosed) (hr : ∀ o ∈ os, g.Resolvable o) :
    compactAll os (g.finish (g.ahead done)) =
      (os.map fun o => .ok (g.behind o), g.finish (g.ahead (os.reverse ++ done))) := by
  induction os generalizing done with
  | nil => rfl
  | cons o os ih =>
    obtain ⟨ho, hos⟩ := List.forall_mem_cons.mp hr
    obtain ⟨hc, hclosed⟩ := compact_ahead hm hdone ho
    simp only [compactAll, hc, ih hclosed hos, List.map_cons, List.reverse_cons,
      List.append_assoc, List.singleton_append]

/-- Roots compacted in any order, each at least once, give the nodes behind them and the same
graph. -/
theorem compactAll_eq {roots os : List Object} (hm : g.MarksClosed)
    (hr : ∀ root ∈ roots, g.Resolvable root) (hos : ∀ o, o ∈ os ↔ o ∈ roots) :
    compactAll os g = (os.map fun o => .ok (g.behind o), g.finish (g.ahead roots)) := by
  have h := compactAll_ahead hm hm.ahead_nil fun o ho => hr o ((hos o).mp ho)
  rw [ahead_nil, finish_empty, List.append_nil] at h
  rw [h, ahead_congr fun o => List.mem_reverse.trans (hos o)]

/-! ## Compactions that change nothing -/

theorem Resolvable.of_reaches (h : g.Resolvable root) (ho : g.Reaches root o) : g.Resolvable o :=
  ⟨fun hx => h.isSome (ho.trans hx), fun hx => h.bound (ho.trans hx),
    fun hx => h.acyclic (ho.trans hx)⟩

/-- After a compaction, one of anything that its root reached changes nothing. -/
theorem compact_of_reaches (hm : g.MarksClosed) (hr : g.Resolvable root) (ho : g.Reaches root o)
    (h : g.compact root = (.ok (g.behind root), g')) : g'.compact o = (.ok (g.behind o), g') := by
  obtain ⟨hc, hclosed⟩ := compact_ahead_nil hm hr
  obtain rfl : g' = g.finish (g.ahead [root]) := (Prod.mk.inj (h.symm.trans hc)).2
  rw [(compact_ahead hm hclosed (hr.of_reaches ho)).1, ahead_cons_of_reaches ho]

/-- A compaction changes nothing exactly if the node behind its root is marked. -/
theorem compact_unchanged_iff (hr : g.Resolvable root) :
    (g.compact root).2 = g ↔ g.Marked (.node (g.behind root)) := by
  obtain ⟨id, B, hc, hroot, -, hid⟩ := compact_spec hr.region .refl
  obtain rfl := Object.node.inj (hr.redirect_eq.symm.trans hroot)
  constructor
  · intro h
    rw [hc] at h
    rwa [show g.finish B = g from h] at hid
  · rintro ⟨node, hn, hmark⟩
    obtain ⟨a, r, p, rfl, hra, -⟩ := hr.resolve .refl
    rw [redirect_of_resolve hra, Object.node.injEq] at hroot
    simp only [compact, compactFrom, hra, hroot, hn, hmark, ↓reduceIte]

end Graph

namespace Grammar

/-- A compilation that gives a root has compacted its entry. -/
theorem compact_of_compile {gr gr' : Grammar} {entry : Object} {g g' : Graph} {root : NodeId}
    {record : Log.Record} (hm : g.MarksClosed)
    (h : gr.compile entry g = (.ok (root, record), gr', g')) :
    ∃ start, gr.production entry = .ok start ∧ g.Resolvable start ∧
      g.compact start = (.ok root, g') := by
  cases he : gr.entryPoint entry g with
  | error f =>
    rw [compile_of_error he] at h
    cases h
  | ok start =>
    obtain ⟨root, record, g', hcompile, hc, -⟩ := compile_of_entryPoint hm he
    rw [hcompile] at h
    cases h
    exact ⟨start, (of_entryPoint he).1, resolvable_of_entryPoint he, hc⟩

end Grammar

namespace Graph

variable {g : Graph}

/-- What compactions of some roots come to: a node for each root, and one graph in the end. -/
structure Settles (g : Graph) (roots : List Object) (id : Object → NodeId) (g' : Graph) : Prop where
  standsFor {root : Object} : root ∈ roots → g.StandsFor root (.node (id root))
  /-- The roots in any order, each of them at least once. -/
  any_order {os : List Object} : (∀ o, o ∈ os ↔ o ∈ roots) →
    compactAll os g = (os.map fun o => .ok (id o), g')
  /-- A second compaction, of the root or of what the first one gave, changes nothing. -/
  again {root : Object} : root ∈ roots → ∃ g₁, g.compact root = (.ok (id root), g₁) ∧
    g₁.compact (.node (id root)) = (.ok (id root), g₁) ∧ g₁.compact root = (.ok (id root), g₁)
  unchanged_iff {root : Object} : root ∈ roots →
    ((g.compact root).2 = g ↔ g.Marked (.node (id root)))

/-- Compactions of roots that can be resolved give the nodes that the roots stand for, and end in
one graph, whatever the order of the roots and however often each of them is compacted. After a
compilation, a compaction of anything that its entry reached changes nothing. -/
theorem compactions_agree {roots : List Object} (hm : g.MarksClosed)
    (hr : ∀ root ∈ roots, g.Resolvable root) :
    (∃ id g', g.Settles roots id g') ∧
    ∀ (gr gr' : Grammar) (entry start : Object) (root : NodeId) (record : Log.Record) (g' : Graph),
      gr.production entry = .ok start → gr.compile entry g = (.ok (root, record), gr', g') →
      ∀ o, g.Reaches start o →
        ∃ id, g.StandsFor o (.node id) ∧ g'.compact o = (.ok id, g') := by
  refine ⟨⟨g.behind, g.finish (g.ahead roots), fun {root} hroot => ?_,
    fun hos => compactAll_eq hm hr hos, fun {root} hroot => ?_,
    fun hroot => compact_unchanged_iff (hr _ hroot)⟩, ?_⟩
  · rw [← (hr root hroot).redirect_eq]
    exact (hr root hroot).standsFor .refl
  · have hres := hr root hroot
    have hreach : g.Reaches root (.node (g.behind root)) :=
      hres.redirect_eq ▸ hres.region.redirect .refl
    obtain ⟨hc, -⟩ := compact_ahead_nil hm hres
    have hagain := compact_of_reaches hm hres hreach hc
    rw [hres.behind_behind] at hagain
    exact ⟨_, hc, hagain, compact_of_reaches hm hres .refl hc⟩
  · intro gr gr' entry start root record g' hp h o ho
    obtain ⟨start', hp', hres, hc⟩ := Grammar.compact_of_compile hm h
    obtain rfl := Except.ok.inj (hp.symm.trans hp')
    obtain rfl : root = g.behind start :=
      Except.ok.inj (Prod.mk.inj (hc.symm.trans (compact_ahead_nil hm hres).1)).1
    have hstands := hres.standsFor ho
    rw [(hres.of_reaches ho).redirect_eq] at hstands
    exact ⟨g.behind o, hstands, compact_of_reaches hm hres ho hc⟩

/-- A reference and a sequence on the ring that it closes, compacted and compiled. -/
theorem ring_compactions :
    ring.MarksClosed ∧ (∀ root ∈ [Object.node 4, .node 0], ring.Resolvable root) ∧
      (∃ id g', ring.Settles [.node 4, .node 0] id g') ∧
      ∃ root record gr' g',
        ({ kind := .bare } : Grammar).compile (.node 4) ring = (.ok (root, record), gr', g') ∧
        ∀ o, ring.Reaches (.node 4) o →
          ∃ id, ring.StandsFor o (.node id) ∧ g'.compact o = (.ok id, g') := by
  have hm : ring.MarksClosed := marksClosed_of_nodes (by decide)
  have hr : ∀ root ∈ [Object.node 4, .node 0], ring.Resolvable root :=
    List.forall_mem_cons.mpr ⟨resolvable_of_checkResolvable rfl,
      List.forall_mem_singleton.mpr (resolvable_of_checkResolvable rfl)⟩
  obtain ⟨hsettles, hcompiled⟩ := compactions_agree hm hr
  have he : ({ kind := .bare } : Grammar).entryPoint (.node 4) ring = .ok (.node 4) := rfl
  obtain ⟨root, record, g', hcompile, -⟩ := Grammar.compile_of_entryPoint hm he
  exact ⟨hm, hr, hsettles, root, record, _, g', hcompile, hcompiled _ _ _ _ _ _ _ rfl hcompile⟩

end Graph

end ParserGraph
