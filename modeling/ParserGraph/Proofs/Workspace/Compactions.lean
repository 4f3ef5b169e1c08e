import ParserGraph.Proofs.Graph.Completion
import ParserGraph.Proofs.Workspace.History

/-!
# Histories with direct compactions

A compaction that is asked for directly is not checked beforehand. If it fails on its way, the nodes
that it has visited stay marked, although their edges were not all redirected, and from then on they
pass for done: a later compaction gives them as they are, forward references behind them and all
(`resumed_reaches_forward`).

So what compactions and compilations give after a history is clear of forward references exactly if
its marked nodes are, and then also if every direct compaction that failed had changed nothing
(`gives_clear_run`).
-/

namespace ParserGraph

namespace Graph

variable {g : Graph} {P : Graph → Object → Prop}

/-- A property of what a graph's next compaction gives, asked for directly or by a compilation, if
it gives a node. The graph is the one that it leaves. -/
structure Gives (g : Graph) (P : Graph → Object → Prop) : Prop where
  compact {o : Object} {id : NodeId} {g' : Graph} : g.compact o = (.ok id, g') → P g' (.node id)
  compile {gr gr' : Grammar} {entry : Object} {id : NodeId} {record : Log.Record} {g' : Graph} :
    gr.compile entry g = (.ok (id, record), gr', g') → P g' (.node id)

/-- A compilation gives what a compaction does. -/
theorem Gives.of_compact (h : ∀ o id g', g.compact o = (.ok id, g') → P g' (.node id)) :
    g.Gives P := by
  refine ⟨fun hc => h _ _ _ hc, fun {gr gr' entry id record g'} hc => ?_⟩
  unfold Grammar.compile at hc
  split at hc
  · cases hc
  rename_i start _
  split at hc
  · cases hc
  rename_i root g₁ hr
  have hroot := h start root g₁ hr
  simp only at hc
  split at hc <;> cases hc
  exact hroot

/-- What is given is clear of forward references exactly if the marked nodes are. -/
theorem gives_clear_iff :
    g.Gives Clear ↔ ∀ o, g.Marked o → g.isForward o = false → g.Clear o := by
  constructor
  · intro h o hm hf
    obtain ⟨id, node, rfl, -⟩ := node?_of_isSome hm.isSome
    exact h.compact (compact_of_marked hm hf)
  · exact fun hm => .of_compact fun o id g' h => clear_compact hm h

/-- Where marks are closed there is nothing to count. -/
theorem MarksClosed.gives (h : g.MarksClosed) : g.Gives fun g' o => g'.forwardCount o = .ok 0 := by
  refine .of_compact fun o id g' hc => ?_
  obtain ⟨hg, hid⟩ := grows_compact hc
  have hm := hg.closed h
  exact forwardCount_eq_zero (fun o' hr => (hm _ hid o' hr).1.isSome) (hm.clear hid)

end Graph

namespace Workspace

/-- A direct compaction either gives a node or fails; it never touches the grammars. -/
theorem run_compact (parser : Operand) (w : Workspace) :
    match (perform (.compact parser)).run w with
    | (.ok _, w') =>
      ∃ o id, w.graph.compact o = (.ok id, w'.graph) ∧ w'.grammars = w.grammars
    | (.error _, w') => w'.grammars = w.grammars := by
  have h := looks_lookup parser w
  simp only [perform, Work.run_bind]
  generalize (lookup parser).run w = r at h ⊢
  rcases r with ⟨p | o, w'⟩
  · exact h.grammars
  · have hg : w'.graph = w.graph := h.graph
    have hrun : (get : Work Workspace).run w' = (.ok w', w') := rfl
    simp only [hrun]
    rcases hc : w'.graph.compact o with ⟨f | id, g'⟩
    · exact h.grammars
    · exact ⟨o, id, hg ▸ hc, h.grammars⟩

/-- Every direct compaction of a history that fails leaves the graph as it was. -/
def Unbroken : List Step → Workspace → Prop
  | [], _ => True
  | s :: steps, w =>
    (s.command.isCompaction = true →
      (∃ reply, (step s w).1 = .ok reply) ∨ (step s w).2.graph = w.graph) ∧
    Unbroken steps (step s w).2

/-- A direct compaction that does not leave marks behind. -/
theorem step_compact {s : Step} (hs : s.command.isCompaction = true) {w : Workspace} (hw : w.Sound)
    (hu : (∃ reply, (step s w).1 = .ok reply) ∨ (step s w).2.graph = w.graph) :
    w.Evolves (step s w).2 := by
  obtain ⟨command, storeAs⟩ := s
  cases command with
  | compact parser =>
    have h := run_compact parser w
    unfold step at hu ⊢
    simp only at hu ⊢
    generalize (perform (.compact parser)).run w = r at h hu ⊢
    rcases r with ⟨p | answer, w'⟩
    · obtain ⟨_, ⟨⟩⟩ | hg := hu
      exact Untouched.evolves ⟨hg, h⟩ hw
    · obtain ⟨o, id, hc, hgr⟩ := h
      obtain ⟨hg, -⟩ := Graph.grows_compact hc
      have hgraph := hw.evolves_graph hg
      have he : w.Evolves w' := hgraph.trans (Untouched.evolves ⟨rfl, hgr⟩ hgraph.sound)
      simp only
      split
      · exact he.trans (Untouched.evolves ⟨rfl, rfl⟩ he.sound)
      · exact he
  | _ => cases hs

theorem unbroken_evolves {steps : List Step} {w : Workspace} (hu : Unbroken steps w)
    (hw : w.Sound) : w.Evolves (run steps w).2 := by
  induction steps generalizing w with
  | nil => exact (Untouched.refl w).evolves hw
  | cons s steps ih =>
    obtain ⟨hs, hsteps⟩ := hu
    have h : w.Evolves (step s w).2 := by
      cases hc : s.command.isCompaction with
      | false => exact step_evolves hc hw
      | true => exact step_compact hc hw (hs hc)
    exact h.trans (ih hsteps h.sound)

/-- After any history, what compactions and compilations give is clear of forward references exactly
if its marked nodes are, and none is counted if no direct compaction of the history left marks
behind when it failed. -/
theorem gives_clear_run (steps : List Step) :
    ((run steps {}).2.graph.Gives Graph.Clear ↔
      ∀ o, (run steps {}).2.graph.Marked o → (run steps {}).2.graph.isForward o = false →
        (run steps {}).2.graph.Clear o) ∧
    (Unbroken steps {} →
      (run steps {}).2.graph.Gives fun g o => g.forwardCount o = .ok 0) :=
  ⟨Graph.gives_clear_iff, fun hu => (unbroken_evolves hu sound_empty).sound.closed.gives⟩

/-- A word is compacted before its letter is known, and once more when it is. -/
def resumed : List Step := [
  ⟨.forward (.text "letter"), some "letter"⟩,
  ⟨.sequence [.name "letter"], some "word"⟩,
  ⟨.compact (.name "word"), none⟩,
  ⟨.char (.character 'a'), some "a"⟩,
  ⟨.bind (.name "letter") (.name "a"), none⟩,
  ⟨.compact (.name "word"), some "root"⟩]

/-- The first compaction has failed, and its mark on the word lets the second one succeed without
doing anything: the letter's forward reference is still there. -/
theorem resumed_reaches_forward :
    let g := (run resumed {}).2.graph
    g.compact (.node 1) = (.ok 1, g) ∧ g.forwardCount (.node 1) = .ok 1 ∧ ¬ g.Gives Graph.Clear := by
  have hc : (run resumed {}).2.graph.compact (.node 1) = (.ok 1, (run resumed {}).2.graph) := rfl
  have hn : (run resumed {}).2.graph.forwardCount (.node 1) = .ok 1 := rfl
  refine ⟨hc, hn, fun h => ?_⟩
  have h0 := (Graph.forwardCount_eq_zero_iff hn).mpr (h.compact hc)
  cases h0

end Workspace

end ParserGraph
