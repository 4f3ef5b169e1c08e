import ParserGraph.Grammar.Kinds
import ParserGraph.Proofs.Graph.Compaction
import ParserGraph.Proofs.Graph.Growth
import ParserGraph.Proofs.Graph.Walk

/-!
# Compilations

Where marks are closed, a compilation either changes nothing or succeeds: the check beforehand has
found that the entry can be resolved, so its compaction cannot fail any more, nor can the walk that
is made for the log afterwards (`compile_cases`). In the end marks are closed again and the root is
marked. The definition of a grammar only builds, so what holds of a compilation holds of the making
of a grammar (`GrammarKind.make_grows`).
-/

namespace ParserGraph

open ParserGraph.Graph (Grows)

namespace Grammar

/-- The entry of a compilation has passed the check. -/
theorem of_entryPoint {gr : Grammar} {entry o : Object} {g : Graph}
    (h : gr.entryPoint entry g = .ok o) :
    gr.production entry = .ok o ∧ g.checkResolvable o = .ok () := by
  simp only [entryPoint, Bind.bind, Except.bind, pure, Except.pure] at h
  split at h
  · cases h
  rename_i hp
  split at h
  · cases h
  split at h
  · cases h
  rename_i hc
  cases h
  exact ⟨hp, hc⟩

theorem resolvable_of_entryPoint {gr : Grammar} {entry o : Object} {g : Graph}
    (h : gr.entryPoint entry g = .ok o) : g.Resolvable o :=
  Graph.resolvable_of_checkResolvable (of_entryPoint h).2

/-- A compilation succeeds from an entry that has passed the check. It marks its root, and changes
nothing of the grammar besides. -/
theorem compile_of_entryPoint {gr : Grammar} {entry start : Object} {g : Graph}
    (hm : g.MarksClosed) (he : gr.entryPoint entry g = .ok start) :
    ∃ root record g',
      gr.compile entry g = (.ok (root, record), { gr with root := some root }, g') ∧
        g.compact start = (.ok root, g') ∧ g.Grows g' ∧ g'.Marked (.node root) := by
  obtain ⟨root, B, hc, -, hB, hroot⟩ :=
    Graph.compact_spec (resolvable_of_entryPoint he).region .refl
  have hclosed := hm.finish hB
  -- Only marked nodes are reached, so the walk for the log finds nodes only.
  have hwalk : ((g.finish B).walk (.node root)).fault = none :=
    Graph.walk_fault_eq_none fun o ho => (hclosed _ hroot o ho).1.isSome
  have hreach : (g.finish B).reachable (.node root) =
      .ok ((g.finish B).walk (.node root)).visited := by
    simp [Graph.reachable, Walk.complete, hwalk]
  exact ⟨root,
    gr.compilationRecord (g.parser? start) ((g.finish B).walk (.node root)).visited.length,
    g.finish B, by simp only [compile, he, hc, hreach], hc,
    ⟨fun _ => hclosed, fun ho => ho.finish B⟩, hroot⟩

/-- A compilation that fails changes nothing. -/
theorem compile_of_error {gr : Grammar} {entry : Object} {g : Graph} {f : Fault}
    (he : gr.entryPoint entry g = .error f) : gr.compile entry g = (.error f, gr, g) := by
  simp only [compile, he]

theorem compile_cases (gr : Grammar) (entry : Object) {g : Graph} (hm : g.MarksClosed) :
    (∃ f, gr.compile entry g = (.error f, gr, g)) ∨
      ∃ root record g',
        gr.compile entry g = (.ok (root, record), { gr with root := some root }, g') ∧
          g.Grows g' ∧ g'.Marked (.node root) := by
  cases he : gr.entryPoint entry g with
  | error f => exact .inl ⟨f, compile_of_error he⟩
  | ok start =>
    obtain ⟨root, record, g', h, -, hg, hroot⟩ := compile_of_entryPoint hm he
    exact .inr ⟨root, record, g', h, hg, hroot⟩

end Grammar

/-! ## The making of a grammar -/

namespace Grammar

/-- Steps of a definition: the graph grows, and nothing is compiled. -/
def Builds (before after : Grammar × Graph) : Prop :=
  before.2.Grows after.2 ∧ after.1.root = before.1.root

instance : Std.Refl Builds :=
  ⟨fun s => ⟨Std.Refl.refl s.2, rfl⟩⟩

instance : Trans Builds Builds Builds :=
  ⟨fun h h' => ⟨h.1.trans h'.1, h'.2.trans h.2⟩⟩

theorem along_declare (name : Value) : Along Builds (declare name) := by
  rintro ⟨gr, g⟩ id s' h
  simp only [declare, Bind.bind, Except.bind, pure, Except.pure] at h
  split at h
  · cases h
  · split at h
    · cases h
    · cases h
      exact ⟨Graph.grows_push g _, rfl⟩

theorem along_production (name : String) : Along Builds (Define.production name) :=
  .map _ (along_declare _)

theorem along_build {α : Type} {b : Graph.Build α} (hb : Along Grows b) :
    Along Builds (Define.build b) := by
  rintro ⟨gr, g⟩ a s' h
  simp only [Define.build, Bind.bind, Except.bind, pure, Except.pure] at h
  split at h
  · cases h
  · rename_i r hr
    cases h
    exact ⟨hb g r.1 r.2 hr, rfl⟩

theorem along_rule (production : Object) {b : Graph.Build NodeId} (hb : Along Grows b) :
    Along Builds (Define.rule production b) :=
  along_build (.bind hb fun _ => Graph.along_bind _ _)

end Grammar

theorem Arithmetic.along_chain (operand operator : Object) (fold : Transform) :
    Along Grows (chain operand operator fold) :=
  .bind (Graph.along_andThen _ _) fun _ => .bind (Graph.along_star _) fun _ =>
    .bind (Graph.along_andThen _ _) fun _ => Graph.along_mapTo _ _

open ParserGraph.Graph Grammar in
theorem Arithmetic.along_define : Along Builds Arithmetic.define := by
  unfold Arithmetic.define
  iterate 11 refine .bind (along_production _) fun _ => ?_
  refine .bind (along_rule _ (.bind (along_add _) fun _ => .bind (along_andThen _ _) fun _ =>
    along_mapTo _ _)) fun _ => ?_
  refine .bind (along_rule _ (along_chain _ _ _)) fun _ => ?_
  refine .bind (along_rule _ (along_chain _ _ _)) fun _ => ?_
  refine .bind (along_rule _ (along_orElse _ _)) fun _ => ?_
  refine .bind (along_rule _ (.bind (along_andThen _ _) fun _ => .bind (along_andThen _ _) fun _ =>
    along_mapTo _ _)) fun _ => ?_
  refine .bind (along_rule _ (along_mapTo _ _)) fun _ => ?_
  iterate 5 refine .bind (along_rule _ (along_add _)) fun _ => ?_
  exact .pure _

open ParserGraph.Graph Grammar in
theorem Digits.along_define : Along Builds Digits.define := by
  unfold Digits.define
  iterate 3 refine .bind (along_production _) fun _ => ?_
  refine .bind (along_rule _ (.bind (along_add _) fun _ => .bind (along_andThen _ _) fun _ =>
    along_mapTo _ _)) fun _ => ?_
  refine .bind (along_rule _ (.bind (along_plus _) fun _ => along_mapTo _ _)) fun _ => ?_
  refine .bind (along_rule _ (along_add _)) fun _ => ?_
  exact .pure _

/-- The graph grew, and the root of the grammar is marked if there is one. -/
structure Language.GrownFrom (l : Language) (g : Graph) : Prop where
  grows : g.Grows l.graph
  root {root : NodeId} : l.grammar.root = some root → l.graph.Marked (.node root)

theorem Grammar.make_grows {kind : GrammarKind} {define : Define Object}
    (hd : Along Builds define) {g : Graph} (hm : g.MarksClosed) {l : Language}
    (h : make kind define g = .ok l) : l.GrownFrom g := by
  simp only [make, Bind.bind, Except.bind] at h
  cases hr : define ({ kind }, g) with
  | error f => rw [hr] at h; cases h
  | ok r =>
    obtain ⟨entry, gr, g₁⟩ := r
    obtain ⟨hg, -⟩ := hd _ _ _ hr
    simp only [hr] at h
    obtain ⟨f, hc⟩ | ⟨root, record, g', hc, hg', hroot⟩ :=
      compile_cases gr entry (hg.closed hm)
    · rw [hc] at h
      cases h
    · rw [hc] at h
      cases h
      exact ⟨hg.trans hg', fun h => Option.some.inj h ▸ hroot⟩

/-- To make a grammar keeps closed marks closed and gives it a marked root. -/
theorem GrammarKind.make_grows {kind : GrammarKind} {g : Graph} (hm : g.MarksClosed) {l : Language}
    (h : kind.make g = .ok l) : l.GrownFrom g := by
  cases kind with
  | bare =>
    cases h
    exact ⟨Std.Refl.refl g, nofun⟩
  | arithmetic => exact Grammar.make_grows Arithmetic.along_define hm h
  | digits => exact Grammar.make_grows Digits.along_define hm h

end ParserGraph
