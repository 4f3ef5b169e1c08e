import Mathlib.Data.Set.Card
import ParserGraph.Proofs.Graph.Dump

/-!
# A walk as an enumeration

A walk is over after as many visits as it has visited objects, and not before (`walkFrom_eq_iff`):
its work list is empty then. Over nodes only, the objects that it has visited are those that the root
reaches, each once and the root first (`reachable_enumerates`). So what is counted among them is
counted right (`OnlyNodes.countP_visited`), like the forward references.
-/

namespace ParserGraph

theorem Walk.visit_inj {o : Object} {w w' : Walk} :
    ({ w with visited := o :: w.visited } : Walk) = { w' with visited := o :: w'.visited } ↔
      w = w' := by
  obtain ⟨visited, fault⟩ := w
  obtain ⟨visited', fault'⟩ := w'
  simp

namespace Graph

variable {g : Graph} {root : Object}

/-- A walk that comes to its end needs one visit for each object that it visits, and with more of
them ends alike. -/
theorem walkFrom_eq_iff {visits : Nat} {pending : Pending}
    (h : (g.walkFrom visits pending).fault = none) (n : Nat) :
    g.walkFrom n pending = g.walkFrom visits pending ↔
      (g.walkFrom visits pending).visited.length ≤ n := by
  induction visits generalizing pending n with
  | zero =>
    rcases pending with ⟨_ | ⟨o, stack⟩, seen⟩
    · simp [walkFrom]
    · cases h
  | succ visits ih =>
    rcases pending with ⟨_ | ⟨o, stack⟩, seen⟩
    · simp [walkFrom]
    obtain ⟨p, pending, hp, hpush, hfault, -⟩ := walkFrom_cons h
    rw [walkFrom_visit hp hpush]
    cases n with
    | zero =>
      refine iff_of_false (fun he => ?_) (Nat.not_succ_le_zero _)
      cases (congrArg Walk.fault he).trans hfault
    | succ n =>
      rw [walkFrom_visit hp hpush, Walk.visit_inj, ih hfault, List.length_cons,
        Nat.succ_le_succ_iff]

/-- To count among the visited objects is to count among those that can be reached. -/
theorem OnlyNodes.countP_visited (h : g.OnlyNodes root) (p : Object → Bool) :
    (g.walk root).visited.countP p = {o | g.Reaches root o ∧ p o = true}.ncard := by
  classical
  have hset : {o | g.Reaches root o ∧ p o = true} =
      (((g.walk root).visited.filter p).toFinset : Set Object) := by
    ext o
    simp [h.numbers.mem_iff]
  rw [hset, Set.ncard_coe_finset, List.toFinset_card_of_nodup (h.numbers.nodup.filter p),
    List.countP_eq_length_filter]

/-- Where only nodes can be reached, a walk runs out of what to visit, and what it has visited is the
root and then all that can be reached, each once. So the forward references are counted right. -/
theorem reachable_enumerates (h : g.OnlyNodes root) :
    ∃ row n, g.reachable root = .ok row ∧ g.Numbers root row ∧
      (∀ visits, g.walkFrom visits ⟨[root], [root]⟩ = { visited := row } ↔ row.length ≤ visits) ∧
      g.forwardCount root = .ok n ∧
      n = {o | g.Reaches root o ∧ g.isForward o = true}.ncard ∧
      (n = 0 ↔ ∀ o, g.Reaches root o → g.isForward o = false) := by
  have hcount : g.forwardCount root = .ok ((g.walk root).visited.countP g.isForward) := by
    rw [forwardCount, h.reachable_eq]
    rfl
  refine ⟨_, _, h.reachable_eq, h.numbers, fun visits => ?_, hcount, h.countP_visited _,
    forwardCount_eq_zero_iff hcount⟩
  have hfault := walk_fault_eq_none h
  rw [h.walk_eq] at hfault ⊢
  rw [← walkFrom_eq_iff hfault visits, ← hfault]

/-- A sequence with itself as a child and another child twice, which leads back to it; a reference to
itself and one without a target; and one that nothing leads to. -/
def tangle : Graph where
  nodes := #[
    { parser := .forward (.text "self") (some 0) },
    { parser := .forward (.text "gap") none },
    { parser := .sequence [.node 2, .node 0, .node 3, .node 3] },
    { parser := .alternation (.node 1) (.node 2) },
    { parser := .forward (.text "aside") (some 2) }]

theorem tangle_enumerated :
    tangle.OnlyNodes (.node 2) ∧
      tangle.Numbers (.node 2) [.node 2, .node 3, .node 1, .node 0] ∧
      (∀ visits, tangle.walkFrom visits ⟨[.node 2], [.node 2]⟩ =
        { visited := [.node 2, .node 3, .node 1, .node 0] } ↔ 4 ≤ visits) ∧
      {o | tangle.Reaches (.node 2) o ∧ tangle.isForward o = true}.ncard = 2 := by
  have h : tangle.OnlyNodes (.node 2) := onlyNodes_of_nodes rfl (by decide)
  obtain ⟨row, n, hrow, hnumbers, hvisits, hn, hcard, -⟩ := reachable_enumerates h
  have hrow' : tangle.reachable (.node 2) = .ok [.node 2, .node 3, .node 1, .node 0] := rfl
  have hn' : tangle.forwardCount (.node 2) = .ok 2 := rfl
  cases hrow.symm.trans hrow'
  cases hn.symm.trans hn'
  exact ⟨h, hnumbers, hvisits, hcard.symm⟩

end Graph

end ParserGraph
