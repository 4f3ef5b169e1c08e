import ParserGraph.Proofs.Graph.Compaction
import ParserGraph.Proofs.Graph.Growth
import ParserGraph.Proofs.Graph.Walk

/-!
# Compactions that give a node

A compaction that gives a node has done what one from a region does, whatever else the root reaches
(`compact_ok`): had an edge or a chain stopped it, it would have failed. But it passes over nodes
that are marked already, and takes on trust that no forward reference is reached from there. So what
it gives is clear of forward references, in every case, exactly if the marked nodes are
(`clear_compact`, `compact_of_marked`).

The number of forward references that a root reaches is zero exactly if it is clear of them
(`forwardCount_eq_zero_iff`).
-/

namespace ParserGraph.Graph

variable {g g' : Graph} {C : Object → Prop}

/-- No forward reference can be reached. -/
def Clear (g : Graph) (o : Object) : Prop :=
  ∀ o', g.Reaches o o' → g.isForward o' = false

theorem Clear.child {o o' : Object} (h : g.Clear o) (hc : g.Child o o') : g.Clear o' :=
  fun _ hr => h _ (.head hc hr)

/-- Objects are clear if edges do not lead away from them and they are no forward references. -/
theorem clear_of_closed {S : Object → Prop} (hf : ∀ o, S o → g.isForward o = false)
    (hc : ∀ o o', S o → g.Child o o' → S o') {o : Object} (ho : S o) : g.Clear o := by
  intro o' hr
  refine hf o' ?_
  induction hr with
  | refl => exact ho
  | tail _ hch ih => exact hc _ _ ih hch

theorem MarksClosed.clear (h : g.MarksClosed) {o : Object} (ho : g.Marked o) : g.Clear o :=
  fun o' hr => (h o ho o' hr).2

/-! ## Runs that succeed -/

/-- A node belongs to the class if it is not marked and no edge of it leads to a chain without an
end. The nodes that a successful run finishes are of this kind. -/
def Admits (g : Graph) (C : Object → Prop) : Prop :=
  ∀ id, ¬ g.Marked (.node id) →
    (∀ c, g.Child (.node id) c → g.isForward (g.redirect c) = false) → C (.node id)

/-- Whatever happens to marked nodes does not matter. -/
theorem Admits.of_marked (h : g.Admits C) (hs : g.SameForwards g')
    (hm : ∀ id, ¬ g'.Marked (.node id) →
      ¬ g.Marked (.node id) ∧ g'.parser? (.node id) = g.parser? (.node id)) : g'.Admits C := by
  intro id hn hc
  obtain ⟨hn, hp⟩ := hm id hn
  refine h id hn fun c hch => ?_
  rw [← hs.redirect, ← hs.isForward]
  exact hc c (by simpa only [Child, hp] using hch)

theorem Admits.mark (h : g.Admits C) (id : NodeId) : (g.mark id).Admits C :=
  h.of_marked (sameForwards_mark id) fun j hn =>
    ⟨fun hm => hn (marked_mark.mpr (.inl hm)), parser?_mark g id (.node j)⟩

/-- A node belongs to the class if a run over its children succeeds once it is marked. -/
theorem Admits.of_mark (h : g.Admits C) {id : NodeId} {p : Parser} (hn : ¬ g.Marked (.node id))
    (hp : g.parser? (.node id) = some p)
    (hc : ∀ c ∈ p.children, (g.mark id).isForward ((g.mark id).redirect c) = false) :
    C (.node id) := by
  have hs := sameForwards_mark (g := g) id
  refine h id hn fun c hch => ?_
  obtain ⟨q, hq, hcq⟩ := hch
  obtain rfl := Option.some.inj (hp.symm.trans hq)
  rw [← hs.redirect, ← hs.isForward]
  exact hc c hcq

theorem Admits.redirected (h : g.Admits C) {B : Finset NodeId} {id : NodeId}
    (hm : g.Marked (.node id)) (i : Nat) (os : List Object) :
    ((g.finish B).setChildren id i os).Admits C := by
  refine h.of_marked ((sameForwards_finish B).trans (sameForwards_setChildren id i os)) ?_
  intro j hn
  rw [marked_setChildren, marked_finish, not_or] at hn
  obtain ⟨hj, hb⟩ := hn
  have hne : id ≠ j := fun he => hj (he ▸ hm)
  refine ⟨hj, ?_⟩
  rw [parser?_setChildren, if_neg hne]
  by_cases hjb : j ∈ B
  · have hnone : g.parser? (.node j) = none := by
      rw [← Option.not_isSome_iff_eq_none, isSome_parser?, isSome_node?]
      exact fun hlt => hb ⟨hjb, hlt⟩
    rw [parser?_finish_of_mem hjb, hnone]
    rfl
  · exact parser?_finish_of_not_mem hjb

/-- A run over children that succeeds. -/
theorem compactChildren_ok {compact : Object → Graph → Except Fault NodeId × Graph}
    (hcompact : ∀ (g : Graph) o t g', g.Admits C → compact o g = (.ok t, g') →
      g.CompactsTo C o (.ok t, g') ∧ g.isForward (.node t) = false)
    {id : NodeId} {i : Nat} {os : List Object} (ha : g.Admits C) (hm : g.Marked (.node id))
    (h : compactChildren compact id i os g = (.ok (), g')) :
    g.RedirectsTo C id i os (.ok (), g') ∧ ∀ o ∈ os, g.isForward (g.redirect o) = false := by
  induction os generalizing i g with
  | nil =>
    cases h
    exact ⟨.nil, by simp⟩
  | cons o os ih =>
    simp only [compactChildren] at h
    split at h
    · rename_i t g₁ hr
      obtain ⟨⟨_, B, hg₁, ht, hB, htm⟩, hft⟩ := hcompact g o t g₁ ha hr
      cases hg₁
      rw [← setChildren_singleton] at h
      have hs := (sameForwards_finish (g := g) B).trans
        (sameForwards_setChildren id i [Object.node t])
      obtain ⟨hrest, hfs⟩ :=
        ih (ha.redirected hm i [.node t]) (marked_setChildren.mpr (hm.finish B)) h
      refine ⟨.cons hm ht hB htm hrest, List.forall_mem_cons.mpr ⟨ht ▸ hft, fun o' ho' => ?_⟩⟩
      rw [← hs.redirect, ← hs.isForward]
      exact hfs o' ho'
    · cases h

theorem compactFrom_ok {depth : Nat} {o : Object} {id : NodeId} (ha : g.Admits C)
    (h : compactFrom depth o g = (.ok id, g')) :
    g.CompactsTo C o (.ok id, g') ∧ g.isForward (.node id) = false := by
  induction depth generalizing g g' o id with
  | zero => cases h
  | succ depth ih =>
    cases o with
    | node a =>
      simp only [compactFrom] at h
      split at h
      · cases h
      rename_i r hr
      have hf := (resolve_eq_ok_iff.mp hr).2
      split at h
      · cases h
      rename_i node hn
      split at h
      · rename_i hm
        cases h
        exact ⟨.of_marked hr ((marked_iff hn).mpr hm), hf⟩
      rename_i hm
      have hun : ¬ g.Marked (.node r) := mt (marked_iff hn).mp hm
      have hlt : r < g.size := isSome_node?.mp (by rw [hn]; rfl)
      have hp : g.parser? (.node r) = some node.parser := by rw [parser?, hn]; rfl
      split at h
      · rename_i hr'
        cases h
        obtain ⟨hrun, hfs⟩ := compactChildren_ok (fun g o t g' ha h => ih ha h) (ha.mark id)
          (marked_mark.mpr (.inr ⟨rfl, hlt⟩)) hr'
        have hC : C (.node id) := ha.of_mark hun hp hfs
        exact ⟨hrun.visit hr hC hp (isForward_eq hp ▸ hf) hun, hf⟩
      · cases h
    | _ => cases h

/-- A compaction that gives a node has finished nodes whose edges all lead to chains that come to a
node. -/
theorem compact_ok {o : Object} {id : NodeId} (h : g.compact o = (.ok id, g')) :
    g.CompactsTo (fun b => ∀ c, g.Child b c → g.isForward (g.redirect c) = false) o (.ok id, g') ∧
      g.isForward (.node id) = false :=
  compactFrom_ok (fun _ _ hc => hc) h

/-! ## What is trusted of marked nodes -/

/-- A marked node is given as it is. -/
theorem compact_of_marked {id : NodeId} (hm : g.Marked (.node id))
    (hf : g.isForward (.node id) = false) : g.compact (.node id) = (.ok id, g) := by
  obtain ⟨node, hn, hc⟩ := hm
  simp [compact, compactFrom, resolve_self hf, hn, hc]

/-- Where marked nodes are clear, whatever a compaction gives is. -/
theorem clear_compact (hm : ∀ o, g.Marked o → g.isForward o = false → g.Clear o) {o : Object}
    {id : NodeId} (h : g.compact o = (.ok id, g')) : g'.Clear (.node id) := by
  obtain ⟨⟨_, B, he, -, hB, hid⟩, hf⟩ := compact_ok h
  cases he
  have hs := sameForwards_finish (g := g) B
  -- Clear objects are not redirected, and the nodes that were finished lead to marked ones.
  have hmarked {x : Object} (hx : (g.finish B).Marked x) (hfx : g.isForward x = false) :
      g.Clear x ∨ ∃ b ∈ B, x = .node b := by
    obtain ⟨b, node, rfl, -⟩ := node?_of_isSome hx.isSome
    exact (marked_finish.mp hx).elim (fun hx => .inl (hm _ hx hfx)) fun hb => .inr ⟨b, hb.1, rfl⟩
  refine clear_of_closed (S := fun x => g.Clear x ∨ ∃ b ∈ B, x = .node b) ?_ ?_ (hmarked hid hf)
  · rintro x (hx | ⟨b, hb, rfl⟩)
    · exact hs.isForward x ▸ hx x .refl
    · exact hs.isForward _ ▸ hB.isForward hb
  · intro x y hx hch
    by_cases hxb : ∃ b ∈ B, x = .node b
    · obtain ⟨b, hb, rfl⟩ := hxb
      obtain ⟨c, hc, rfl⟩ := hch.of_finish hb (hB.isForward hb)
      exact hmarked (hB.children hb hc) (hB.region hb c hc)
    · obtain ⟨p, hp, hy⟩ := hch
      obtain ⟨a, rfl⟩ := exists_of_parser? hp
      have ha : a ∉ B := fun ha => hxb ⟨a, ha, rfl⟩
      exact .inl ((hx.resolve_right hxb).child ((child_finish_of_not_mem ha).mp ⟨p, hp, hy⟩))

/-- A compaction that gives a node keeps closed marks closed, and every mark; and it marks the
node. -/
theorem grows_compact {o : Object} {id : NodeId} (h : g.compact o = (.ok id, g')) :
    g.Grows g' ∧ g'.Marked (.node id) := by
  obtain ⟨⟨_, B, he, -, hB, hid⟩, -⟩ := compact_ok h
  cases he
  exact ⟨⟨fun hm => hm.finish hB, fun hx => hx.finish B⟩, hid⟩

/-! ## Counting forward references -/

/-- A walk visits only what can be reached from what is pending. -/
theorem reaches_of_visited {visits : Nat} {pending : Pending} {o : Object}
    (h : o ∈ (g.walkFrom visits pending).visited) : ∃ r ∈ pending.stack, g.Reaches r o := by
  induction visits generalizing pending with
  | zero => rcases pending with ⟨_ | ⟨x, stack⟩, seen⟩ <;> cases h
  | succ visits ih =>
    rcases pending with ⟨_ | ⟨x, stack⟩, seen⟩
    · cases h
    have hhead (ho : o ∈ [x]) : ∃ r ∈ x :: stack, g.Reaches r o :=
      ⟨x, List.mem_cons_self .., List.mem_singleton.mp ho ▸ .refl⟩
    simp only [walkFrom] at h
    split at h
    · exact hhead h
    rename_i node hn
    split at h
    · exact hhead h
    rename_i next hpush
    rcases List.mem_cons.mp h with rfl | h
    · exact hhead (List.mem_singleton_self o)
    obtain ⟨new, hst, -, hnew, -⟩ := pushNew_ok hpush
    obtain ⟨r, hr, hro⟩ := ih h
    rw [hst] at hr
    rcases List.mem_append.mp hr with hr | hr
    · have hp : g.parser? x = some node.parser := by rw [parser?, hn]; rfl
      exact ⟨x, List.mem_cons_self .., .head ⟨node.parser, hp, hnew r hr⟩ hro⟩
    · exact ⟨r, List.mem_cons_of_mem x hr, hro⟩

/-- A walk visits only what can be reached from its root. -/
theorem reaches_of_mem_walk {root o : Object} (h : o ∈ (g.walk root).visited) :
    g.Reaches root o := by
  unfold walk at h
  split at h
  · obtain ⟨r, hr, hro⟩ := reaches_of_visited h
    exact List.mem_singleton.mp hr ▸ hro
  · cases h

/-- Forward references are counted right: there is none exactly if the count is zero. -/
theorem forwardCount_eq_zero_iff {root : Object} {n : Nat} (h : g.forwardCount root = .ok n) :
    n = 0 ↔ g.Clear root := by
  simp only [forwardCount, reachable, Walk.complete] at h
  cases hw : (g.walk root).fault with
  | some f =>
    rw [hw] at h
    cases h
  | none =>
    rw [hw] at h
    obtain rfl : (g.walk root).visited.countP g.isForward = n := Except.ok.inj h
    rw [List.countP_eq_zero]
    constructor
    · intro hv o ho
      exact Bool.eq_false_iff.mpr (hv o (walk_complete hw ho).1)
    · exact fun hc o ho => Bool.eq_false_iff.mp (hc o (reaches_of_mem_walk ho))

/-- A root that reaches nodes only, none of them a forward reference. -/
theorem forwardCount_eq_zero {root : Object} (hn : ∀ o, g.Reaches root o → (g.node? o).isSome)
    (hc : g.Clear root) : g.forwardCount root = .ok 0 := by
  have hw : g.forwardCount root = .ok ((g.walk root).visited.countP g.isForward) := by
    simp [forwardCount, reachable, Walk.complete, walk_fault_eq_none hn, Except.map]
  rw [hw, (forwardCount_eq_zero_iff hw).mpr hc]

end ParserGraph.Graph
