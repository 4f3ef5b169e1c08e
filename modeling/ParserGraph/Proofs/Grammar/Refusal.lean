import Mathlib.Tactic.IntervalCases
import ParserGraph.Fault.Message
import ParserGraph.Proofs.Grammar.Compilation
import ParserGraph.Proofs.Graph.Obstacles

/-!
# Compilations that are refused

A compilation is refused exactly if its entry is obstructed, and that is exactly if a compaction of
the entry would fail: the check beforehand and the compaction go through the graph in ways of their
own, and agree on every graph in which marks are closed (`compile_refused`). The refusal names a
circle if there is one, and else every reference without a target.
-/

namespace ParserGraph.Grammar

open ParserGraph.Graph

variable {gr : Grammar} {g : Graph} {entry start : Object}

/-- What keeps an entry that is a node from being compiled is what the check finds. -/
theorem entryPoint_eq (hp : gr.production entry = .ok start) (hn : (g.node? start).isSome) :
    gr.entryPoint entry g = (g.checkResolvable start).map fun _ => start := by
  cases h : g.checkResolvable start <;>
    simp [entryPoint, hp, Option.isNone_eq_false_iff.mpr hn, h, Bind.bind, Except.bind, pure,
      Except.pure, Except.map]

/-- When a compilation from an entry is refused, and with which defect. -/
structure Refuses (gr : Grammar) (g : Graph) (entry start : Object) : Prop where
  compile_error_iff :
    (∃ d, (gr.compile entry g).1 = .error (.defect d)) ↔ g.Obstructed start
  compile_ok_iff : (∃ r, (gr.compile entry g).1 = .ok r) ↔ ¬ g.Obstructed start
  /-- A compaction without the check fails at the same graphs. -/
  compact_error_iff : (∃ d, (g.compact start).1 = .error (.defect d)) ↔ g.Obstructed start
  compact_ok_iff : (∃ id, (g.compact start).1 = .ok id) ↔ ¬ g.Obstructed start
  /-- A reference that runs into a circle is named, whatever else is in the way. -/
  circle : (∃ id, g.Reaches start (.node id) ∧ g.Circles id) →
    ∃ id name, g.Reaches start (.node id) ∧ g.Circles id ∧
      (∃ target, g.parser? (.node id) = some (.forward name (some target))) ∧
      (gr.compile entry g).1 = .error (.defect (.boundToItself name)) ∧
      ∀ display, Defect.message display (.boundToItself name) =
        name.words.map fun text => "Forward reference parser '" ++ text ++ "' is bound to itself"
  /-- Else the references without a target are named, each of them once, in the order of the
  names. -/
  unbound : (¬∃ id, g.Reaches start (.node id) ∧ g.Circles id) → g.Obstructed start →
    ∃ (ids : List NodeId) (names : List String), ids.Nodup ∧
      (∀ id, id ∈ ids ↔ g.Reaches start (.node id) ∧ ∃ name, g.Unbound id name) ∧
      List.Forall₂ (fun id name => g.Unbound id (.text name)) ids names ∧
      names.Pairwise (· ≤ ·) ∧
      (gr.compile entry g).1 = .error (.defect (.neverBoundReachable names)) ∧
      ∀ display, Defect.message display (.neverBoundReachable names) =
        .ok ("Forward reference parsers never bound: " ++ ", ".intercalate names)

/-- Where marks are closed, the entry reaches nodes only, and names are texts, a compilation is
refused exactly if the entry is obstructed. -/
theorem compile_refused (hm : g.MarksClosed) (hp : gr.production entry = .ok start)
    (hn : g.OnlyNodes start)
    (htext : ∀ id name, g.Reaches start (.node id) → g.Unbound id name → ∃ s, name = .text s) :
    gr.Refuses g entry start := by
  have hnode := hn start .refl
  have hfails {f : Fault} (h : g.checkResolvable start = .error f) :
      (gr.compile entry g).1 = .error f := by
    have he : gr.entryPoint entry g = .error f := by
      rw [entryPoint_eq hp hnode, h]
      rfl
    rw [compile_of_error he]
  have hobstructed (hob : g.Obstructed start) :
      ∃ d, (gr.compile entry g).1 = .error (.defect d) := by
    by_cases hc : ∃ id, g.Reaches start (.node id) ∧ g.Circles id
    · obtain ⟨_, name, -, -, -, h⟩ := checkResolvable_of_circles hn hc
      exact ⟨_, hfails h⟩
    · obtain ⟨_, names, -, -, -, -, h⟩ := checkResolvable_of_unbound hn hc hob htext
      exact ⟨_, hfails h⟩
  have hfree (hob : ¬ g.Obstructed start) : ∃ r, (gr.compile entry g).1 = .ok r := by
    have he : gr.entryPoint entry g = .ok start := by
      rw [entryPoint_eq hp hnode, checkResolvable_of_not_obstructed hn hob]
      rfl
    obtain ⟨root, record, g', h, -⟩ := compile_of_entryPoint hm he
    exact ⟨_, congrArg Prod.fst h⟩
  have hcompact := compact_cases hm hn
  refine ⟨⟨?_, hobstructed⟩, ⟨?_, hfree⟩, ?_, ?_, fun hc => ?_, fun hc hob => ?_⟩
  · rintro ⟨d, hd⟩
    by_contra hob
    obtain ⟨r, hr⟩ := hfree hob
    cases hd.symm.trans hr
  · rintro ⟨r, hr⟩ hob
    obtain ⟨d, hd⟩ := hobstructed hob
    cases hd.symm.trans hr
  · obtain ⟨hob, id, h⟩ | ⟨hob, d, h⟩ := hcompact <;> simp [hob, h]
  · obtain ⟨hob, id, h⟩ | ⟨hob, d, h⟩ := hcompact <;> simp [hob, h]
  · obtain ⟨id, name, ho, hcid, htarget, h⟩ := checkResolvable_of_circles hn hc
    exact ⟨id, name, ho, hcid, htarget, hfails h, fun _ => rfl⟩
  · obtain ⟨ids, names, hnd, hids, hrow, hsorted, h⟩ := checkResolvable_of_unbound hn hc hob htext
    exact ⟨ids, names, hnd, hids, hrow, hsorted, hfails h, fun _ => rfl⟩

/-- Two references without a target, of which one occurs twice, and a chain into a circle behind
them. -/
def unfinished : Graph where
  nodes := #[
    { parser := .forward (.text "start") (some 1) },
    { parser := .sequence [.node 2, .node 3, .node 2, .node 4] },
    { parser := .forward (.text "word") none },
    { parser := .forward (.text "letter") none },
    { parser := .forward (.text "into") (some 5) },
    { parser := .forward (.text "around") (some 6) },
    { parser := .forward (.text "again") (some 5) }]

theorem unfinished_refused :
    let gr : Grammar := { kind := .bare, productions := [(.text "start", 0)] }
    let entry : Object := .value (.text "start")
    unfinished.MarksClosed ∧ gr.production entry = .ok (.node 0) ∧ unfinished.OnlyNodes (.node 0) ∧
      (∀ id name, unfinished.Reaches (.node 0) (.node id) → unfinished.Unbound id name →
        ∃ s, name = .text s) ∧
      gr.Refuses unfinished entry (.node 0) := by
  have hm : unfinished.MarksClosed := marksClosed_of_nodes (by decide)
  have hn : unfinished.OnlyNodes (.node 0) := fun o h => (walk_complete rfl h).2
  have htext : ∀ id name, unfinished.Reaches (.node 0) (.node id) → unfinished.Unbound id name →
      ∃ s, name = .text s := by
    intro id name ho hu
    have hid : id < 7 := isSome_node?.mp (hn _ ho)
    interval_cases id
    all_goals cases hu
    all_goals exact ⟨_, rfl⟩
  exact ⟨hm, rfl, hn, htext, compile_refused hm rfl hn htext⟩

end ParserGraph.Grammar
