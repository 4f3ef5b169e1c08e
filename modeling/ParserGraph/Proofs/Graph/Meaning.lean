import ParserGraph.Proofs.Evaluation.Limit
import ParserGraph.Proofs.Graph.Compaction
import ParserGraph.Proofs.Graph.Walk
import ParserGraph.Proofs.Graph.Writing
import ParserGraph.Proofs.Number.Decimal

/-!
# What a graph means before and after a compaction

`Graph.interpret` runs objects as `Graph.evaluate` does, but runs a forward reference as its target.
It gives a meaning to graphs that are not compacted, or only in parts.

A compaction redirects edges, and an edge and what it is redirected to are joined: their chains come
to the same node. Graphs whose edges lead to joined objects end alike (`Rejoined.endAlike`). Depths
differ, since on one side a chain may have to be followed that the other side has passed over; no
chain is longer than the graph, so a depth may be multiplied by that (`Rejoined.interpret_agrees`).
What marked nodes reach is free of forward references, so an interpretation of those is an
evaluation (`interpret_eq_evaluate`). Together: a compaction keeps the meaning of its root, and of
every other node (`compact_keeps_meaning`).

Only the message of a repetition that does not move on shows nodes, and a forward reference hides
what it stands for. So this message may be written on one side and not on the other
(`overlong_changes_fault`); in a graph of values that can be written it always is.
-/

namespace ParserGraph

/-! ## Ends that are alike -/

/-- The same end in the same state, but for the fault. -/
inductive Alike (faults : Fault → Fault → Prop) : Outcome × Progress → Outcome × Progress → Prop
  | refl (r : Outcome × Progress) : Alike faults r r
  | raised {f f' : Fault} (h : faults f f') (s : Progress) :
    Alike faults (.raised f, s) (.raised f', s)

/-- Two runs end alike, and neither ends where the other does not. -/
def EndAlike (faults : Fault → Fault → Prop) (run run' : Nat → Object → Attempt) (o o' : Object)
    (s : Progress) : Prop :=
  (∀ r, EndsIn run o s r → ∃ r', EndsIn run' o' s r' ∧ Alike faults r r') ∧
    ∀ r', EndsIn run' o' s r' → ∃ r, EndsIn run o s r ∧ Alike faults r r'

/-- The same fault, or the defect of a repetition, whichever object it repeats. -/
inductive Fault.SameKind : Fault → Fault → Prop
  | refl (f : Fault) : SameKind f f
  | zeroWidth (o o' : Object) :
    SameKind (.defect (.zeroWidthRepetition o)) (.defect (.zeroWidthRepetition o'))

variable {faults faults' : Fault → Fault → Prop}

theorem Alike.imp {r r' : Outcome × Progress} (h : Alike faults r r')
    (hf : ∀ {f f'}, faults f f' → faults' f f') : Alike faults' r r' := by
  cases h with
  | refl => exact .refl _
  | raised h => exact .raised (hf h) _

theorem Alike.flip {r r' : Outcome × Progress} (h : Alike faults r r')
    (hf : ∀ {f f'}, faults f f' → faults' f' f) : Alike faults' r' r := by
  cases h with
  | refl => exact .refl _
  | raised h => exact .raised (hf h) _

theorem EndAlike.imp {run run' : Nat → Object → Attempt} {o o' : Object} {s : Progress}
    (h : EndAlike faults run run' o o' s) (hf : ∀ {f f'}, faults f f' → faults' f f') :
    EndAlike faults' run run' o o' s := by
  constructor
  · intro r hr
    obtain ⟨r', hr', ha⟩ := h.1 r hr
    exact ⟨r', hr', ha.imp hf⟩
  · intro r' hr'
    obtain ⟨r, hr, ha⟩ := h.2 r' hr'
    exact ⟨r, hr, ha.imp hf⟩

theorem Agrees.alike {r r' : Outcome × Progress} (h : Agrees (fun s s' => s' = s) faults r r')
    (hr : r.1 ≠ .givenUp) : Alike faults r r' := by
  cases h with
  | givenUp => exact absurd rfl hr
  | matched v hs => rw [hs]; exact .refl _
  | mismatch hs => rw [hs]; exact .refl _
  | raised hf hs => rw [hs]; exact .raised hf _

namespace Parser

variable {objects objects' : Object → Object → Prop} {p p' : Parser}

theorem Similar.symm (h : ∀ {o o'}, objects o o' → objects' o' o) (hp : p.Similar objects p') :
    p'.Similar objects' p := by
  cases hp with
  | literal lower upper => exact .literal lower upper
  | sequence hos => exact .sequence (hos.flip.imp fun _ _ => h)
  | alternation ha hb => exact .alternation (h ha) (h hb)
  | repetition ho => exact .repetition (h ho)
  | endOfInput => exact .endOfInput
  | map ho t => exact .map (h ho) t
  | forward name target target' => exact .forward name target' target

theorem Similar.isForward (hp : p.Similar objects p') : p'.isForward = p.isForward := by
  cases hp <;> rfl

theorem Similar.writable (hp : p.Similar objects p') (h : p.Writable) : p'.Writable := by
  cases hp <;> exact h

/-- An edge to a value is one on both sides, if values correspond to themselves only. -/
theorem Similar.value_mem (hp : p.Similar objects p') {v : Value}
    (hobj : ∀ o, objects o (.value v) → o = .value v) (hv : .value v ∈ p'.children) :
    .value v ∈ p.children := by
  cases hp with
  | @sequence os os' hos =>
    obtain ⟨i, hi, hv⟩ := List.mem_iff_getElem.mp hv
    have ho := hos.get (hos.length_eq ▸ hi) hi
    have hv : os'.get ⟨i, hi⟩ = .value v := hv
    exact hobj _ (hv ▸ ho) ▸ List.get_mem os _
  | alternation ha hb =>
    simp only [children, List.mem_cons, List.not_mem_nil, or_false] at hv ⊢
    exact hv.imp (fun h => (hobj _ (h ▸ ha)).symm) fun h => (hobj _ (h ▸ hb)).symm
  | repetition ho | map ho =>
    simp only [children, List.mem_singleton] at hv ⊢
    exact (hobj _ (hv ▸ ho)).symm
  | forward name target target' => cases target' <;> simp [children] at hv
  | literal | endOfInput => exact hv

theorem similar_mapChildren {f : Object → Object} {p : Parser}
    (h : ∀ o ∈ p.children, objects o (f o)) : p.Similar objects (p.mapChildren f) := by
  cases p with
  | literal lower upper => exact .literal lower upper
  | sequence os => exact .sequence (List.forall₂_map_right_iff.mpr (List.forall₂_same.mpr h))
  | alternation a b => exact .alternation (h a (by simp [children])) (h b (by simp [children]))
  | repetition o => exact .repetition (h o (by simp [children]))
  | endOfInput => exact .endOfInput
  | map o t => exact .map (h o (by simp [children])) t
  | forward name target => exact .forward name target target

end Parser

namespace Graph

variable {g g' : Graph} {content : Content}

/-! ## Interpretation -/

/-- Runs an object as `evaluate` does, but a forward reference as its target. -/
def interpret (g : Graph) (content : Content) : Nat → Object → Attempt
  | 0, _, s => (.givenUp, s)
  | depth + 1, o, s =>
    match g.parser? o with
    | some (.forward name none) => (.raised (g.raise (.neverBound name)), s)
    | some (.forward _ (some target)) => g.interpret content depth (.node target) s
    | some p => p.attempt g.raise (g.interpret content depth) content s
    | none => (.raised (g.raise (.notAParser o)), s)

theorem interpret_none {o : Object} (h : g.parser? o = none) (depth : Nat) (s : Progress) :
    g.interpret content (depth + 1) o s = (.raised (g.raise (.notAParser o)), s) := by
  simp [interpret, h]

theorem interpret_unbound {o : Object} {name : Value} (h : g.parser? o = some (.forward name none))
    (depth : Nat) (s : Progress) :
    g.interpret content (depth + 1) o s = (.raised (g.raise (.neverBound name)), s) := by
  simp [interpret, h]

theorem interpret_next {a b : NodeId} (h : g.Next a b) (depth : Nat) :
    g.interpret content (depth + 1) (.node a) = g.interpret content depth (.node b) := by
  obtain ⟨name, h⟩ := h
  funext s
  simp [interpret, h]

theorem interpret_of_not_forward {o : Object} {p : Parser} (h : g.parser? o = some p)
    (hf : p.isForward = false) (depth : Nat) (s : Progress) :
    g.interpret content (depth + 1) o s = p.attempt g.raise (g.interpret content depth) content s := by
  cases p with
  | forward => cases hf
  | _ => simp [interpret, h]

/-- To follow a chain takes as many runs inside each other as it has references. -/
theorem interpret_resolveFrom (content : Content) {steps : Nat} {seen : List NodeId} {a r : NodeId}
    (h : g.resolveFrom steps seen a = .ok r) :
    ∃ k < steps, ∀ depth,
      g.interpret content (depth + k) (.node a) = g.interpret content depth (.node r) := by
  induction steps generalizing seen a with
  | zero => cases h
  | succ steps ih =>
    simp only [resolveFrom] at h
    split at h
    · rename_i name target hp
      cases target with
      | none => cases h
      | some next =>
        simp only at h
        split at h
        · cases h
        · obtain ⟨k, hk, hchain⟩ := ih h
          exact ⟨k + 1, by omega, fun depth =>
            (interpret_next ⟨name, hp⟩ (depth + k)).trans (hchain depth)⟩
    · cases h
      exact ⟨0, by omega, fun _ => rfl⟩

theorem interpret_resolve (content : Content) {a r : NodeId} (h : g.resolve a = .ok r) :
    ∃ k ≤ g.size, ∀ depth,
      g.interpret content (depth + k) (.node a) = g.interpret content depth (.node r) := by
  obtain ⟨k, hk, hchain⟩ := interpret_resolveFrom content h
  exact ⟨k, by omega, hchain⟩

/-! ## Joined objects -/

/-- Two objects stand for one parser: they are one, or their chains come to one node. -/
inductive Joined (g : Graph) : Object → Object → Prop
  | refl (o : Object) : Joined g o o
  | resolve {a b r : NodeId} (ha : g.resolve a = .ok r) (hb : g.resolve b = .ok r) :
    Joined g (.node a) (.node b)

theorem Joined.symm {o o' : Object} (h : g.Joined o o') : g.Joined o' o := by
  cases h with
  | refl => exact .refl o
  | resolve ha hb => exact .resolve hb ha

theorem joined_redirect (g : Graph) (o : Object) : g.Joined o (g.redirect o) := by
  cases o with
  | node a =>
    cases h : g.resolve a with
    | ok r =>
      rw [redirect_of_resolve h]
      exact .resolve h (resolve_self (resolve_eq_ok_iff.mp h).2)
    | error f =>
      simp only [redirect, h]
      exact .refl _
  | _ => exact .refl _

theorem SameForwards.joined (h : g.SameForwards g') {o o' : Object} (ho : g.Joined o o') :
    g'.Joined o o' := by
  cases ho with
  | refl => exact .refl o
  | resolve ha hb => exact .resolve (h.resolve_eq_ok.mpr ha) (h.resolve_eq_ok.mpr hb)

/-- Graphs with the same forward references, and nodes of one shape whose edges lead to joined
objects. -/
structure Rejoined (g g' : Graph) : Prop where
  forwards : g.SameForwards g'
  parser? (o : Object) : Option.Rel (Parser.Similar g.Joined) (g.parser? o) (g'.parser? o)

theorem SameForwards.symm (h : g.SameForwards g') : g'.SameForwards g :=
  ⟨h.size.symm, fun id name target => (h.parser? id name target).symm⟩

theorem Rejoined.symm (h : g.Rejoined g') : g'.Rejoined g := by
  refine ⟨h.forwards.symm, fun o => ?_⟩
  have ho := h.parser? o
  generalize g.parser? o = q, g'.parser? o = q' at ho ⊢
  cases ho with
  | none => exact .none
  | some hp => exact .some (hp.symm fun hj => h.forwards.joined hj.symm)

theorem rejoined_finish (B : Finset NodeId) : g.Rejoined (g.finish B) := by
  refine ⟨sameForwards_finish B, fun o => ?_⟩
  cases o with
  | node id =>
    by_cases hb : id ∈ B
    · rw [parser?_finish_of_mem hb]
      cases g.parser? (.node id) with
      | none => exact .none
      | some p => exact .some (Parser.similar_mapChildren fun o _ => g.joined_redirect o)
    · rw [parser?_finish_of_not_mem hb]
      cases g.parser? (.node id) with
      | none => exact .none
      | some p => exact .some (.refl g.Joined .refl p)
  | _ => exact .none

/-- The same fault, or what the defect of a repetition is raised as in each graph, whichever of two
joined objects it repeats. -/
inductive Raised (g g' : Graph) : Fault → Fault → Prop
  | refl (f : Fault) : Raised g g' f f
  | zeroWidth {o o' : Object} (h : g.Joined o o') :
    Raised g g' (g.raise (.zeroWidthRepetition o)) (g'.raise (.zeroWidthRepetition o'))

/-- States are the same, objects joined, and faults those of joined objects. -/
def joinedObjects (g g' : Graph) (content : Content) : Correspondence content content :=
  .sameStates content g.Joined (g.Raised g') .refl

theorem raises_joinedObjects (g g' : Graph) (content : Content) :
    (g.joinedObjects g' content).Raises g.raise g'.raise where
  zeroWidth _ _ h := .zeroWidth h
  parsedForward name := by
    have h : g.raise (.parsedForward name) = g'.raise (.parsedForward name) := raise_congr g g' rfl
    exact h ▸ .refl _

/-- One run of one object, if the runs inside it agree. -/
theorem Rejoined.interpret_succ_agrees (h : g.Rejoined g') {depth depth' : Nat}
    (hruns : (g.joinedObjects g' content).Runs (g.interpret content depth)
      (g'.interpret content depth')) (o : Object) (s : Progress) :
    (g.joinedObjects g' content).Agrees (g.interpret content (depth + 1) o s)
      (g'.interpret content (depth' + 1) o s) := by
  have ho := h.parser? o
  cases hp : g.parser? o with
  | none =>
    cases hp' : g'.parser? o with
    | none =>
      rw [interpret_none hp, interpret_none hp', raise_notAParser hp hp']
      exact .raised (.refl _) rfl
    | some p' => rw [hp, hp'] at ho; cases ho
  | some p =>
    obtain ⟨id, rfl⟩ := exists_of_parser? hp
    by_cases hf : p.isForward = true
    · cases p with
      | forward name target =>
        have hp' := (h.forwards.parser? id name target).mpr hp
        cases target with
        | none =>
          rw [interpret_unbound hp, interpret_unbound hp', raise_congr g g' rfl]
          exact .raised (.refl _) rfl
        | some b =>
          rw [interpret_next ⟨name, hp⟩, interpret_next ⟨name, hp'⟩]
          exact hruns (.refl _) rfl
      | _ => cases hf
    · cases hp' : g'.parser? (.node id) with
      | none => rw [hp, hp'] at ho; cases ho
      | some p' =>
        rw [hp, hp'] at ho
        cases ho with
        | some hs =>
          rw [Bool.not_eq_true] at hf
          rw [interpret_of_not_forward hp hf, interpret_of_not_forward hp' (hs.isForward.trans hf)]
          exact p.attempt_agrees _ (raises_joinedObjects g g' content) hruns hs rfl

/-- Joined objects agree, if the right side may follow a chain at each run. -/
theorem Rejoined.interpret_agrees (h : g.Rejoined g') (content : Content) {depth depth' : Nat}
    (hd : depth * (g.size + 1) ≤ depth') :
    (g.joinedObjects g' content).Runs (g.interpret content depth)
      (g'.interpret content depth') := by
  induction depth generalizing depth' with
  | zero => exact fun _ _ _ s _ _ => .givenUp s _
  | succ depth ih =>
    rw [Nat.succ_mul] at hd
    rintro o o' ho _ s rfl
    cases ho with
    | refl =>
      obtain ⟨n, rfl⟩ : ∃ n, depth' = n + 1 := ⟨depth' - 1, by omega⟩
      exact h.interpret_succ_agrees (ih (by omega)) o s
    | @resolve a b r ha hb =>
      obtain ⟨hl, hf⟩ := resolve_eq_ok_iff.mp ha
      rcases hl.cases_head with rfl | ⟨next, hn, -⟩
      · -- The left side has come to the node, and the right side has to catch up with it.
        obtain ⟨k, hk, hchain⟩ := interpret_resolve content
          (h.forwards.resolve_eq_ok.mpr hb)
        rw [h.forwards.size] at hk
        obtain ⟨n, rfl⟩ : ∃ n, depth' = n + 1 + k := ⟨depth' - 1 - k, by omega⟩
        rw [hchain]
        exact h.interpret_succ_agrees (ih (by omega)) _ s
      · rw [interpret_next hn]
        exact ih (by omega) (.resolve (hn.resolve ha) hb) rfl

theorem Rejoined.raised_flip (h : g.Rejoined g') {f f' : Fault} (hf : g'.Raised g f f') :
    g.Raised g' f' f := by
  cases hf with
  | refl => exact .refl _
  | zeroWidth hj => exact .zeroWidth (h.symm.forwards.joined hj.symm)

/-- Joined objects end alike. -/
theorem Rejoined.endAlike (h : g.Rejoined g') (content : Content) {o o' : Object}
    (ho : g.Joined o o') (s : Progress) :
    EndAlike (g.Raised g') (g.interpret content) (g'.interpret content) o o' s := by
  constructor
  · rintro _ ⟨hr, depth, rfl⟩
    have ha := h.interpret_agrees content (Nat.le_refl (depth * (g.size + 1))) ho (rfl : s = s)
    exact ⟨_, ⟨ha.ne_givenUp hr, _, rfl⟩, ha.alike hr⟩
  · rintro _ ⟨hr, depth, rfl⟩
    have ha := h.symm.interpret_agrees content (Nat.le_refl (depth * (g'.size + 1)))
      (h.forwards.joined ho.symm) (rfl : s = s)
    exact ⟨_, ⟨ha.ne_givenUp hr, _, rfl⟩, (ha.alike hr).flip h.raised_flip⟩

/-! ## Values that can be written -/

theorem Rejoined.exists_similar (h : g.Rejoined g') {o : Object} {p' : Parser}
    (hp' : g'.parser? o = some p') : ∃ p, g.parser? o = some p ∧ p.Similar g.Joined p' := by
  have ho := h.parser? o
  rw [hp'] at ho
  generalize g.parser? o = q at ho ⊢
  cases ho with
  | some hs => exact ⟨_, rfl, hs⟩

theorem Rejoined.writable (h : g.Rejoined g') (hw : g.Writable) : g'.Writable where
  parser hp' := by
    obtain ⟨p, hp, hs⟩ := h.exists_similar hp'
    exact hs.writable (hw.parser hp)
  edge hp' hv := by
    obtain ⟨p, hp, hs⟩ := h.exists_similar hp'
    exact hw.edge hp (hs.value_mem (fun o ho => by cases ho; rfl) hv)

/-- Where values can be written, faults are of the same kind. -/
theorem Rejoined.sameKind (h : g.Rejoined g') (hw : g.Writable) {f f' : Fault}
    (hf : g.Raised g' f f') : f.SameKind f' := by
  cases hf with
  | refl => exact .refl _
  | @zeroWidth o o' hj =>
    have hnode (a b : NodeId) : Fault.SameKind (g.raise (.zeroWidthRepetition (.node a)))
        (g'.raise (.zeroWidthRepetition (.node b))) := by
      rw [hw.raise_zeroWidth a, (h.writable hw).raise_zeroWidth b]
      exact .zeroWidth _ _
    have hother {o : Object} (ho : g.parser? o = none) (ho' : g'.parser? o = none) :
        Fault.SameKind (g.raise (.zeroWidthRepetition o)) (g'.raise (.zeroWidthRepetition o)) :=
      raise_zeroWidth_of_none ho ho' ▸ .refl _
    cases hj with
    | refl =>
      cases o with
      | node id => exact hnode id id
      | _ => exact hother rfl rfl
    | resolve => exact hnode _ _

/-! ## Marked nodes -/

/-- Where marks are closed, to interpret a marked node is to evaluate it. -/
theorem interpret_eq_evaluate (hm : g.MarksClosed) {o : Object} (ho : g.Marked o) (depth : Nat) :
    g.interpret content depth o = g.evaluate content depth o := by
  induction depth generalizing o with
  | zero => rfl
  | succ depth ih =>
    obtain ⟨p, hp⟩ := ho.exists_parser?
    funext s
    rw [interpret_of_not_forward hp (isForward_eq hp ▸ hm.isForward ho), evaluate_succ, hp,
      p.attempt_congr fun c hc => ih (hm.child ho ⟨p, hp, hc⟩)]

/-- A node of another graph means what a root meant, and every object still means what it meant;
`faults` are the faults that count as the same. -/
structure KeepsMeaning (faults : Fault → Fault → Prop) (g : Graph) (root : Object) (g' : Graph)
    (id : NodeId) : Prop where
  /-- Where the interpretation of the root ends, a parse of the node ends alike. -/
  ends (content : Content) (i : Int) (r : Outcome × Progress) :
    EndsIn (g.interpret content) root { position := i } r →
      Alike faults r (g'.parse (.node id) content i)
  /-- Where it does not end, and only there, the parse is given up. -/
  givenUp (content : Content) (i : Int) :
    (g'.parse (.node id) content i).1 = .givenUp ↔
      ∀ r, ¬ EndsIn (g.interpret content) root { position := i } r
  others (content : Content) (o : Object) (s : Progress) :
    EndAlike faults (g.interpret content) (g'.interpret content) o o s

theorem KeepsMeaning.imp {root : Object} {id : NodeId} (h : g.KeepsMeaning faults root g' id)
    (hf : ∀ {f f'}, faults f f' → faults' f f') : g.KeepsMeaning faults' root g' id where
  ends content i r hr := (h.ends content i r hr).imp hf
  givenUp := h.givenUp
  others content o s := (h.others content o s).imp hf

/-- What was rejoined keeps the meaning of a root, if it has marked what the root was redirected
to. -/
theorem Rejoined.keepsMeaning (h : g.Rejoined g') (hm : g'.MarksClosed) {root : Object} {id : NodeId}
    (hroot : g.Joined root (.node id)) (hid : g'.Marked (.node id)) :
    g.KeepsMeaning (g.Raised g') root g' id := by
  have hrun (content : Content) (depth : Nat) : g'.interpret content depth (.node id) =
      g'.evaluate content depth (.node id) := interpret_eq_evaluate hm hid depth
  -- What is said of interpretations of the node holds of its evaluations.
  have halike (content : Content) (s : Progress) :
      EndAlike (g.Raised g') (g.interpret content) (g'.evaluate content) root (.node id) s := by
    have h := h.endAlike content hroot s
    simpa only [EndAlike, EndsIn, hrun] using h
  refine ⟨fun content i r h => ?_, fun content i => ?_,
    fun content o s => h.endAlike content (.refl o) s⟩
  · obtain ⟨r', h', ha⟩ := (halike content _).1 r h
    rwa [(parse_eq_iff h'.1).mpr h']
  · rw [parse_givenUp_iff]
    constructor
    · intro hn r h
      obtain ⟨r', h', -⟩ := (halike content _).1 r h
      exact hn r' h'
    · intro hn r' h'
      obtain ⟨r, h, -⟩ := (halike content _).2 r' h'
      exact hn r h

/-- A compaction from a root that can be resolved succeeds and keeps what the graph means. The fault
of a repetition depends on whether the text of what it repeats can be written, and this is so on
both sides in a graph of values that can. -/
theorem compact_keeps_meaning {root : Object} (hm : g.MarksClosed) (hr : g.Resolvable root) :
    ∃ id g', g.compact root = (.ok id, g') ∧ g.KeepsMeaning (g.Raised g') root g' id ∧
      (g.Writable → g.KeepsMeaning Fault.SameKind root g' id) := by
  obtain ⟨id, B, hc, hroot, hB, hid⟩ := compact_spec hr.region .refl
  have hj := rejoined_finish (g := g) B
  have hk := hj.keepsMeaning (hm.finish hB) (hroot ▸ g.joined_redirect root) hid
  exact ⟨id, g.finish B, hc, hk, fun hw => hk.imp (hj.sameKind hw)⟩

/-- A cycle that is closed through a chain of two references, and meets a node that was compacted
before. -/
def ring : Graph where
  nodes := #[
    { parser := .forward (.text "ring") (some 1) },
    { parser := .forward (.text "chain") (some 3) },
    { parser := .literal (.character 'a') (.character 'z'), compacted := true },
    { parser := .alternation (.node 4) (.node 2) },
    { parser := .sequence [.node 2, .node 0] }]

theorem ring_keeps_meaning :
    ring.MarksClosed ∧ ring.Resolvable (.node 0) ∧
      ∃ id g', ring.compact (.node 0) = (.ok id, g') ∧
        ring.KeepsMeaning (ring.Raised g') (.node 0) g' id ∧
        (ring.Writable → ring.KeepsMeaning Fault.SameKind (.node 0) g' id) := by
  have hm : ring.MarksClosed := marksClosed_of_nodes (by decide)
  have hr : ring.Resolvable (.node 0) := resolvable_of_checkResolvable rfl
  exact ⟨hm, hr, compact_keeps_meaning hm hr⟩

/-- A number of one digit more than can be written. -/
def overlong : Value :=
  .int (Nat.ofDigitChars 10 (List.replicate (Number.maxDigits + 1) '1') 0 : Nat)

theorem display_overlong : overlong.display = .error .wrongValue := by
  have hrow : Number.Digits (List.replicate (Number.maxDigits + 1) '1') :=
    fun c hc => List.eq_of_mem_replicate hc ▸ rfl
  have hdigits := Number.toDigits_ofDigitChars hrow
  have hwithout : Number.withoutLeadingZeros (List.replicate (Number.maxDigits + 1) '1') =
      List.replicate (Number.maxDigits + 1) '1' := rfl
  refine if_neg ?_
  rw [overlong, Value.isWritable, Int.natAbs_natCast, hdigits, hwithout, List.length_replicate,
    decide_eq_true_eq]
  exact Nat.not_succ_le_self _

/-- A repetition of a forward reference, which hides the bounds of a literal. -/
def veiled : Graph where
  nodes := #[
    { parser := .forward (.text "veil") (some 1) },
    { parser := .alternation (.node 2) (.node 3) },
    { parser := .endOfInput },
    { parser := .literal overlong overlong },
    { parser := .repetition (.node 0) }]

/-- At the end of a text the repetition does not move on. Its message can be written while it shows
the forward reference, and no longer when it shows the literal behind it. -/
theorem overlong_changes_fault :
    veiled.MarksClosed ∧ veiled.Resolvable (.node 4) ∧
      EndsIn (veiled.interpret (.ofValue (.text ""))) (.node 4) { position := 0 }
        (.raised (.defect (.zeroWidthRepetition (.node 0))), { position := 0 }) ∧
      (∃ g', veiled.compact (.node 4) = (.ok 4, g') ∧
        g'.parse (.node 4) (.ofValue (.text "")) 0 = (.raised .wrongValue, { position := 0 })) ∧
      ¬ ∃ id g', veiled.compact (.node 4) = (.ok id, g') ∧
        veiled.KeepsMeaning Fault.SameKind (.node 4) g' id := by
  have hm : veiled.MarksClosed := marksClosed_of_nodes (by decide)
  have hr : veiled.Resolvable (.node 4) := resolvable_of_checkResolvable rfl
  have hends : EndsIn (veiled.interpret (.ofValue (.text ""))) (.node 4) { position := 0 }
      (.raised (.defect (.zeroWidthRepetition (.node 0))), { position := 0 }) := by
    refine ⟨nofun, 4, ?_⟩
    have hraise : veiled.raise (.zeroWidthRepetition (.node 0)) =
        .defect (.zeroWidthRepetition (.node 0)) := rfl
    -- What is raised stays folded while the run is carried out.
    rw [← hraise]
    rfl
  obtain ⟨g', hc⟩ : ∃ g', veiled.compact (.node 4) = (.ok 4, g') := ⟨_, rfl⟩
  have hparse : g'.parse (.node 4) (.ofValue (.text "")) 0 =
      (.raised .wrongValue, { position := 0 }) := by
    obtain rfl : (veiled.compact (.node 4)).2 = g' := congrArg Prod.snd hc
    set g' := (veiled.compact (.node 4)).2
    have hsize : g'.size = 5 := rfl
    have halt : g'.parser? (.node 1) = some (.alternation (.node 2) (.node 3)) := rfl
    have hend : g'.parser? (.node 2) = some .endOfInput := rfl
    have hlit : g'.parser? (.node 3) = some (.literal overlong overlong) := rfl
    have hdisplay : g'.display displayValue (.node 1) = .error .wrongValue := by
      simp only [display, displayFrom, hsize, halt, hend, hlit, display_overlong,
        List.contains_eq_mem, List.not_mem_nil, List.mem_cons, decide_false, Nat.succ_ne_self,
        Nat.reduceEqDiff, or_self, Bool.false_eq_true, ↓reduceIte]
      rfl
    have hraise : g'.raise (.zeroWidthRepetition (.node 1)) = .wrongValue := by
      simp only [raise, Defect.message, hdisplay]
      rfl
    rw [← hraise]
    rfl
  refine ⟨hm, hr, hends, ⟨g', hc, hparse⟩, ?_⟩
  rintro ⟨id, g'', hc', hk⟩
  obtain ⟨⟨⟩, rfl⟩ := Prod.mk.inj (hc.symm.trans hc')
  have h := hk.ends _ _ _ hends
  rw [hparse] at h
  cases h with
  | raised h => cases h

end Graph

end ParserGraph
