import Mathlib.Data.List.Perm.Basic
import ParserGraph.Proofs.Graph.Numbering
import ParserGraph.Proofs.Graph.Redirection

/-!
# What keeps a root from being compacted

A root that reaches nodes only can be resolved unless it is obstructed: it reaches a forward
reference without a target, or one whose chain runs into a circle (`resolvable_iff`). A compaction
meets these obstacles edge by edge, and passes over nodes that are marked; still it fails exactly if
its root is obstructed, as closed marks hide no obstacle (`resolvable_of_compact`). Where it fails it
fails by a defect, and never because it went too deep (`compactFrom_ends`).

The check before a compilation looks at all visited nodes one by one and finds the same. A circle is
reported before anything else (`checkResolvable_of_circles`). Without one, the references that have
no target are all reported, in the order of their names (`checkResolvable_of_unbound`).
-/

namespace ParserGraph.Graph

open Relation

variable {g g' : Graph} {root o : Object} {id : NodeId}

/-! ## Obstacles -/

/-- A forward reference without a target. -/
def Unbound (g : Graph) (id : NodeId) (name : Value) : Prop :=
  g.parser? (.node id) = some (.forward name none)

/-- The chain from a node runs into a circle of forward references. -/
def Circles (g : Graph) (id : NodeId) : Prop :=
  ∃ x, g.Leads id x ∧ g.Loop x

/-- A forward reference is reached that does not lead to a node. -/
def Obstructed (g : Graph) (root : Object) : Prop :=
  ∃ id, g.Reaches root (.node id) ∧ ((∃ name, g.Unbound id name) ∨ g.Circles id)

theorem Circles.exists_next (h : g.Circles id) : ∃ target, g.Next id target := by
  obtain ⟨x, hl, hx⟩ := h
  rcases hl.cases_head with rfl | ⟨t, ht, -⟩
  · obtain ⟨t, ht, -⟩ := TransGen.head'_iff.mp hx
    exact ⟨t, ht⟩
  · exact ⟨t, ht⟩

/-- A chain that comes to an end runs into no circle. -/
theorem not_circles_of_terminal {e : NodeId} (h : g.Leads id e) (he : g.Terminal e) :
    ¬ g.Circles id := by
  rintro ⟨x, hl, hx⟩
  exact (h.to_terminal he hl).not_loop he hx

theorem resolvable_iff (h : g.OnlyNodes root) : g.Resolvable root ↔ ¬ g.Obstructed root := by
  constructor
  · rintro hr ⟨id, ho, ⟨name, hn⟩ | ⟨x, hl, hx⟩⟩
    · exact hr.bound ho hn
    · exact hr.acyclic (ho.trans hl.reaches) hx
  · intro hn
    refine ⟨fun ho => h _ ho, fun {o name} ho hp => ?_, fun {id} ho hl => hn ?_⟩
    · obtain ⟨id, rfl⟩ := exists_of_parser? hp
      exact hn ⟨id, ho, .inl ⟨name, hp⟩⟩
    · exact ⟨id, ho, .inr ⟨id, .refl, hl⟩⟩

/-! ## Compactions that fail -/

/-- A run keeps the number of nodes and every mark, and where it fails it does so by a defect. -/
structure EndsByDefect {α : Type} (g : Graph) (result : Except Fault α × Graph) : Prop where
  size : result.2.size = g.size
  marked {id : NodeId} : g.Marked (.node id) → result.2.Marked (.node id)
  defect {f : Fault} : result.1 = .error f → ∃ d, f = .defect d

theorem EndsByDefect.ok {α : Type} (a : α) : g.EndsByDefect (.ok a, g) :=
  ⟨rfl, id, nofun⟩

theorem EndsByDefect.error {α : Type} (d : Defect) :
    g.EndsByDefect ((.error (.defect d) : Except Fault α), g) := by
  refine ⟨rfl, id, ?_⟩
  rintro f ⟨⟩
  exact ⟨d, rfl⟩

/-- A run that goes on after another, which may have changed edges and made marks. -/
theorem EndsByDefect.after {α : Type} {result : Except Fault α × Graph}
    (h : g'.EndsByDefect result) (hs : g'.size = g.size)
    (hm : ∀ id, g.Marked (.node id) → g'.Marked (.node id)) : g.EndsByDefect result :=
  ⟨h.size.trans hs, fun hid => h.marked (hm _ hid), h.defect⟩

theorem compactChildren_ends {compact : Object → Graph → Except Fault NodeId × Graph} {depth : Nat}
    (hcompact : ∀ (g : Graph) o, g.unmarked.card < depth → g.EndsByDefect (compact o g))
    {i : Nat} {os : List Object} (hd : g.unmarked.card < depth) :
    g.EndsByDefect (compactChildren compact id i os g) := by
  induction os generalizing i g with
  | nil => exact .ok ()
  | cons o os ih =>
    have ho := hcompact g o hd
    rcases hc : compact o g with ⟨f | t, g₁⟩
    all_goals
      rw [hc] at ho
      simp only [compactChildren, hc]
    · exact ⟨ho.size, ho.marked, fun hf => by cases hf; exact ho.defect rfl⟩
    · have hs : (g₁.setChild id i (.node t)).size = g.size :=
        (size_setChildren (g := g₁) id i [.node t]).trans ho.size
      have hm : ∀ j, g.Marked (.node j) → (g₁.setChild id i (.node t)).Marked (.node j) := by
        intro j hj
        rw [← setChildren_singleton]
        exact marked_setChildren.mpr (ho.marked hj)
      exact (ih ((card_unmarked_le hs hm).trans_lt hd)).after hs hm

/-- A run deep enough for the nodes that are not marked yet. -/
theorem compactFrom_ends {depth : Nat} (hd : g.unmarked.card < depth) :
    g.EndsByDefect (compactFrom depth o g) := by
  induction depth generalizing g o with
  | zero => omega
  | succ depth ih =>
    cases o with
    | node a =>
      rcases g.resolve_cases a with ⟨r, hr, -⟩ | ⟨u, name, hr, -⟩ | ⟨x, name, hr, -⟩
      all_goals simp only [compactFrom, hr]
      · cases hn : g.node? (.node r) with
        | none => exact .error _
        | some node =>
          by_cases hc : node.compacted = true
          · simp only [hc, ↓reduceIte]
            exact .ok r
          simp only [hc, Bool.false_eq_true, ↓reduceIte]
          have hr' : r ∈ g.unmarked := mem_unmarked.mpr
            ⟨isSome_node?.mp (by rw [hn]; rfl), mt (marked_iff hn).mp hc⟩
          have hlt := card_unmarked_mark hr'
          have hd' : (g.mark r).unmarked.card < depth := by omega
          have hrun : (g.mark r).EndsByDefect
              (compactChildren (compactFrom depth) r 0 node.parser.children (g.mark r)) :=
            compactChildren_ends (fun g o hd => ih hd) hd'
          have hend := hrun.after (size_mark g r) fun j hj => marked_mark.mpr (.inl hj)
          clear hrun
          generalize compactChildren _ _ _ _ _ = result at hend ⊢
          obtain ⟨f | ⟨⟩, g₁⟩ := result
          · exact ⟨hend.size, hend.marked, fun hf => by cases hf; exact hend.defect rfl⟩
          · exact ⟨hend.size, hend.marked, fun hf => by cases hf⟩
      · exact .error _
      · exact .error _
    | _ => exact .error _

/-- Whatever a compaction starts from, it fails by a defect if it fails. -/
theorem compact_defect {f : Fault} (h : (g.compact o).1 = .error f) : ∃ d, f = .defect d :=
  (compactFrom_ends (Nat.lt_succ_of_le g.card_unmarked_le_size)).defect h

theorem resolve_of_redirect {a : NodeId} (h : g.isForward (g.redirect (.node a)) = false) :
    ∃ r, g.resolve a = .ok r := by
  by_contra hn
  have hself : g.redirect (.node a) = .node a := by
    cases hr : g.resolve a with
    | ok r => exact absurd ⟨r, hr⟩ hn
    | error f => simp [redirect, hr]
  rw [hself] at h
  exact hn ⟨a, resolve_self h⟩

/-- Where a compaction succeeds, every chain that its root reaches comes to a node: a compaction
passes over marked nodes only, and where marks are closed these reach no chains. -/
theorem resolvable_of_compact (hm : g.MarksClosed) (hn : g.OnlyNodes root)
    (h : g.compact root = (.ok id, g')) : g.Resolvable root := by
  obtain ⟨⟨_, B, hok, hroot, hB, hid⟩, hf⟩ := compact_ok h
  cases hok
  have key : ∀ o, g.Reaches root o →
      g.isForward (g.redirect o) = false ∧ (g.finish B).Marked (g.redirect o) := by
    intro o ho
    induction ho with
    | refl => exact hroot ▸ ⟨hf, hid⟩
    | @tail b c hb hc ih =>
      obtain ⟨a, p, rfl, hp⟩ := hn.exists_parser? hb
      by_cases hfa : g.isForward (.node a) = false
      · rw [redirect_of_not_forward hfa] at ih
        rcases marked_finish.mp ih.2 with hma | ⟨haB, -⟩
        · have hmc := hm.child hma hc
          rw [redirect_of_not_forward (hm.isForward hmc)]
          exact ⟨hm.isForward hmc, hmc.finish B⟩
        · exact ⟨hB.region haB c hc, hB.children haB hc⟩
      · obtain ⟨r, hr⟩ := resolve_of_redirect ih.1
        obtain ⟨q, hq, hcq⟩ := hc
        rw [isForward_eq hq] at hfa
        cases q with
        | forward name target =>
          cases target with
          | none => cases hcq
          | some t =>
            obtain rfl := List.mem_singleton.mp hcq
            rwa [← Next.redirect ⟨name, hq⟩ hr]
        | _ => exact absurd rfl hfa
  refine (resolvable_iff hn).mpr ?_
  rintro ⟨a, ha, hobstacle⟩
  obtain ⟨r, hr⟩ := resolve_of_redirect (key _ ha).1
  obtain ⟨hl, hfr⟩ := resolve_eq_ok_iff.mp hr
  rcases hobstacle with ⟨name, hu⟩ | hcircle
  · obtain rfl := Leads.eq_of_terminal (terminal_of_unbound hu) (terminal_of_not_forward hfr) .refl hl
    rw [isForward_eq hu] at hfr
    cases hfr
  · exact not_circles_of_terminal hl (terminal_of_not_forward hfr) hcircle

/-- A compaction gives a node, or fails by a defect, as its root is obstructed or not. -/
theorem compact_cases (hm : g.MarksClosed) (hn : g.OnlyNodes root) :
    (¬ g.Obstructed root ∧ ∃ id, (g.compact root).1 = .ok id) ∨
      (g.Obstructed root ∧ ∃ d, (g.compact root).1 = .error (.defect d)) := by
  rcases hc : g.compact root with ⟨f | id, g'⟩
  · obtain ⟨d, rfl⟩ := compact_defect (congrArg Prod.fst hc)
    refine .inr ⟨?_, d, rfl⟩
    by_contra hob
    obtain ⟨id, B, hok, -⟩ := compact_spec ((resolvable_iff hn).mpr hob).region .refl
    rw [hok] at hc
    cases hc
  · exact .inl ⟨(resolvable_iff hn).mp (resolvable_of_compact hm hn hc), id, rfl⟩

/-! ## The check -/

/-- A circle is found by following a chain. -/
theorem obstacle?_eq_loop_iff {name : Value} :
    g.obstacle? (.node id) = some (.loop name) ↔
      (∃ target, g.parser? (.node id) = some (.forward name (some target))) ∧ g.Circles id := by
  cases hp : g.parser? (.node id) with
  | none => simp [obstacle?, hp]
  | some p =>
    cases p with
    | forward other target =>
      cases target with
      | none => simp [obstacle?, hp]
      | some t =>
        have hnext : g.Next id t := ⟨other, hp⟩
        have hpassed : g.Passed [id] t := ⟨by simp, by simpa using .single hnext⟩
        have hsteps : g.size < g.size + 1 + 1 := by omega
        obtain ⟨hl, x, hlx, hx⟩ | ⟨hl, e, hle, he⟩ := loopsFrom_cases hpassed hsteps
        · have hc : g.Circles id := ⟨x, .head hnext hlx, hx⟩
          simp [obstacle?, hp, hl, hc]
        · have hc : ¬ g.Circles id := not_circles_of_terminal (.head hnext hle) he
          simp [obstacle?, hp, hl, hc]
    | _ => simp [obstacle?, hp]

theorem obstacle?_eq_unbound_iff {name : Value} :
    g.obstacle? (.node id) = some (.unbound name) ↔ g.Unbound id name := by
  cases hp : g.parser? (.node id) with
  | none => simp [obstacle?, Unbound, hp]
  | some p =>
    cases p with
    | forward other target =>
      cases target with
      | none => simp [obstacle?, Unbound, hp]
      | some t =>
        simp only [obstacle?, Unbound, hp]
        split <;> simp
    | _ => simp [obstacle?, Unbound, hp]

/-- Without an obstacle the check passes. -/
theorem checkResolvable_of_not_obstructed (h : g.OnlyNodes root) (hn : ¬ g.Obstructed root) :
    g.checkResolvable root = .ok () := by
  have hnone : (g.walk root).visited.filterMap g.obstacle? = [] := by
    refine List.filterMap_eq_nil_iff.mpr fun o ho => Option.eq_none_iff_forall_ne_some.mpr ?_
    intro ob hob
    have hreach := h.numbers.mem_iff.mp ho
    obtain ⟨id, p, rfl, -⟩ := h.exists_parser? hreach
    cases ob with
    | loop name => exact hn ⟨id, hreach, .inr (obstacle?_eq_loop_iff.mp hob).2⟩
    | unbound name => exact hn ⟨id, hreach, .inl ⟨name, obstacle?_eq_unbound_iff.mp hob⟩⟩
  simp only [checkResolvable, hnone, Walk.complete, walk_fault_eq_none h]
  rfl

/-- A name that is found among the loops is that of a reference into a circle. -/
theorem exists_circle_of_findSome? {name? : Obstacle → Option Value} {name : Value}
    (h : g.OnlyNodes root)
    (hfound : ((g.walk root).visited.filterMap g.obstacle?).findSome? name? = some name)
    (hloop : ∀ name, name? (.loop name) = some name)
    (hunbound : ∀ name, name? (.unbound name) = none) :
    ∃ id, g.Reaches root (.node id) ∧ g.Circles id ∧
      ∃ target, g.parser? (.node id) = some (.forward name (some target)) := by
  obtain ⟨ob, hob, hname⟩ := List.exists_of_findSome?_eq_some hfound
  obtain ⟨o, ho, hob⟩ := List.mem_filterMap.mp hob
  have hreach := h.numbers.mem_iff.mp ho
  obtain ⟨id, p, rfl, -⟩ := h.exists_parser? hreach
  cases ob with
  | unbound name' => cases (hunbound name').symm.trans hname
  | loop name' =>
    cases (hloop name').symm.trans hname
    obtain ⟨htarget, hcircles⟩ := obstacle?_eq_loop_iff.mp hob
    exact ⟨id, hreach, hcircles, htarget⟩

/-- A circle is reported before anything else. -/
theorem checkResolvable_of_circles (h : g.OnlyNodes root)
    (hc : ∃ id, g.Reaches root (.node id) ∧ g.Circles id) :
    ∃ id name, g.Reaches root (.node id) ∧ g.Circles id ∧
      (∃ target, g.parser? (.node id) = some (.forward name (some target))) ∧
      g.checkResolvable root = .error (.defect (.boundToItself name)) := by
  unfold checkResolvable
  simp only
  split
  · rename_i name hfound
    obtain ⟨id, ho, hcircles, htarget⟩ :=
      exists_circle_of_findSome? h hfound (fun _ => rfl) fun _ => rfl
    exact ⟨id, name, ho, hcircles, htarget, rfl⟩
  · rename_i hnone
    obtain ⟨id, ho, hcircles⟩ := hc
    obtain ⟨target, name, hp⟩ := hcircles.exists_next
    have hob := obstacle?_eq_loop_iff.mpr ⟨⟨target, hp⟩, hcircles⟩
    have hmem := h.numbers.mem_iff.mpr ho
    cases List.findSome?_eq_none_iff.mp hnone _ (List.mem_filterMap.mpr ⟨_, hmem, hob⟩)

/-- A row of objects gives a row of the references among them that have no target, with their
names. -/
theorem exists_unbound_row {os : List Object} {name? : Obstacle → Option Value}
    {names : List Value} (hnames : (os.filterMap g.obstacle?).filterMap name? = names)
    (hunbound : ∀ name, name? (.unbound name) = some name)
    (hloop : ∀ name, name? (.loop name) = none) (hos : os.Nodup) :
    ∃ ids : List NodeId, ids.Nodup ∧
      (∀ id, id ∈ ids ↔ .node id ∈ os ∧ ∃ name, g.Unbound id name) ∧
      List.Forall₂ g.Unbound ids names := by
  subst hnames
  induction os with
  | nil => exact ⟨[], by simp⟩
  | cons o os ih =>
    obtain ⟨hno, hos⟩ := List.nodup_cons.mp hos
    obtain ⟨ids, hnd, hmem, hrow⟩ := ih hos
    -- An object that is no reference without a target adds nothing.
    have skip (ho : ∀ id name, o = .node id → ¬ g.Unbound id name) (id : NodeId) :
        id ∈ ids ↔ .node id ∈ o :: os ∧ ∃ name, g.Unbound id name := by
      refine (hmem id).trans (and_congr_left ?_)
      rintro ⟨name, hu⟩
      rw [List.mem_cons, or_iff_right fun he => ho id name he.symm hu]
    cases hob : g.obstacle? o with
    | none =>
      rw [List.filterMap_cons_none hob]
      refine ⟨ids, hnd, skip ?_, hrow⟩
      rintro id name rfl hu
      cases hob.symm.trans (obstacle?_eq_unbound_iff.mpr hu)
    | some ob =>
      rw [List.filterMap_cons_some hob]
      cases ob with
      | loop name =>
        rw [List.filterMap_cons_none (hloop name)]
        refine ⟨ids, hnd, skip ?_, hrow⟩
        rintro id name' rfl hu
        cases hob.symm.trans (obstacle?_eq_unbound_iff.mpr hu)
      | unbound name =>
        rw [List.filterMap_cons_some (hunbound name)]
        obtain ⟨id, rfl⟩ : ∃ id, o = .node id := by
          cases o with
          | node id => exact ⟨id, rfl⟩
          | _ => cases hob
        have hu := obstacle?_eq_unbound_iff.mp hob
        refine ⟨id :: ids, List.nodup_cons.mpr ⟨fun hid => hno ((hmem id).mp hid).1, hnd⟩,
          fun j => ?_, .cons hu hrow⟩
        simp only [List.mem_cons, hmem, Object.node.injEq, or_and_right]
        refine or_congr_left ⟨?_, And.left⟩
        rintro rfl
        exact ⟨rfl, name, hu⟩

theorem exists_texts {ids : List NodeId} {names : List Value}
    (h : List.Forall₂ g.Unbound ids names)
    (htext : ∀ id ∈ ids, ∀ name, g.Unbound id name → ∃ s, name = .text s) :
    ∃ texts : List String, names = texts.map .text ∧
      List.Forall₂ (fun id s => g.Unbound id (.text s)) ids texts := by
  induction h with
  | nil => exact ⟨[], rfl, .nil⟩
  | cons hu _ ih =>
    obtain ⟨hfirst, hrest⟩ := List.forall_mem_cons.mp htext
    obtain ⟨s, rfl⟩ := hfirst _ hu
    obtain ⟨texts, rfl, hrow⟩ := ih hrest
    exact ⟨s :: texts, rfl, .cons hu hrow⟩

/-- Names that are texts can be sorted. -/
theorem sortedNames_texts (texts : List String) :
    sortedNames (texts.map .text) = .ok (texts.mergeSort fun a b => decide (a ≤ b)) := by
  have hmap : sortedNames (texts.map .text) = (do
      let names ← texts.mapM pure
      return names.mergeSort fun a b => decide (a ≤ b)) := by
    unfold sortedNames
    rw [List.mapM_map]
    rfl
  rw [hmap, List.mapM_pure, pure_bind, List.map_id']
  rfl

theorem pairwise_sorted (texts : List String) :
    (texts.mergeSort fun a b => decide (a ≤ b)).Pairwise (· ≤ ·) := by
  refine (List.pairwise_mergeSort (fun a b c hab hbc => ?_) (fun a b => ?_) texts).imp
    of_decide_eq_true
  · exact decide_eq_true (String.le_trans (of_decide_eq_true hab) (of_decide_eq_true hbc))
  · simpa using String.le_total a b

/-- Without a circle, the references without a target are reported: each of them once, and in the
order of their names. -/
theorem checkResolvable_of_unbound (h : g.OnlyNodes root)
    (hc : ¬∃ id, g.Reaches root (.node id) ∧ g.Circles id) (hob : g.Obstructed root)
    (htext : ∀ id name, g.Reaches root (.node id) → g.Unbound id name → ∃ s, name = .text s) :
    ∃ (ids : List NodeId) (names : List String), ids.Nodup ∧
      (∀ id, id ∈ ids ↔ g.Reaches root (.node id) ∧ ∃ name, g.Unbound id name) ∧
      List.Forall₂ (fun id name => g.Unbound id (.text name)) ids names ∧
      names.Pairwise (· ≤ ·) ∧
      g.checkResolvable root = .error (.defect (.neverBoundReachable names)) := by
  unfold checkResolvable
  simp only [Walk.complete, walk_fault_eq_none h]
  split
  · rename_i name hfound
    obtain ⟨id, ho, hcircles, -⟩ := exists_circle_of_findSome? h hfound (fun _ => rfl) fun _ => rfl
    exact absurd ⟨id, ho, hcircles⟩ hc
  · generalize hnames : List.filterMap _ (List.filterMap g.obstacle? _) = names
    obtain ⟨ids, hnd, hids, hrow⟩ :=
      exists_unbound_row hnames (fun _ => rfl) (fun _ => rfl) h.numbers.nodup
    simp only [h.numbers.mem_iff] at hids
    obtain ⟨texts, rfl, htexts⟩ := exists_texts hrow
      fun id hid name => htext id name ((hids id).mp hid).1
    have hne : texts ≠ [] := by
      rintro rfl
      obtain rfl := List.forall₂_nil_right_iff.mp htexts
      obtain ⟨id, ho, hu | hcircles⟩ := hob
      · cases (hids id).mpr ⟨ho, hu⟩
      · exact hc ⟨id, ho, hcircles⟩
    -- The references are put into the order of their sorted names.
    obtain ⟨ids', hrow', hperm⟩ :=
      List.perm_comp_forall₂ (List.mergeSort_perm texts fun a b => decide (a ≤ b)) htexts.flip
    refine ⟨ids', _, hperm.nodup_iff.mpr hnd, fun id => hperm.mem_iff.trans (hids id), hrow'.flip,
      pairwise_sorted texts, ?_⟩
    have hempty : (texts.map Value.text).isEmpty = false := by
      simpa [List.isEmpty_eq_false_iff] using hne
    simp only [hempty, sortedNames_texts]
    rfl

end ParserGraph.Graph
