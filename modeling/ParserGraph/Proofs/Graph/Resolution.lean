import Mathlib.Data.List.Perm.Subperm
import ParserGraph.Proofs.Graph.Reachability

/-!
# Chains of forward references

From a forward reference a chain leads on to its target, and from there on as long as the target is
one, too. A chain comes to a node that is no forward reference, or to one without a target, or it
comes back to itself; `Graph.resolveFrom` tells these apart, and its steps are enough for that as
each passes another node (`resolve_cases`). As a chain never branches, its end is the one of every
node on it (`resolve_eq_ok_iff`).

A root can be resolved if what it reaches are nodes, and the chains there are of the first kind;
every object that it reaches then resolves (`Resolvable.resolve`), and the check before a
compilation finds out whether it can (`resolvable_of_checkResolvable`, in `Proofs.Graph.Walk`).
-/

namespace ParserGraph.Graph

open Relation

variable {g g' : Graph}

/-- A forward reference and its target. -/
def Next (g : Graph) (a b : NodeId) : Prop :=
  ∃ name, g.parser? (.node a) = some (.forward name (some b))

/-- A chain of forward references from one node to another. -/
abbrev Leads (g : Graph) : NodeId → NodeId → Prop :=
  ReflTransGen g.Next

/-- A chain of forward references that comes back to its start. -/
def Loop (g : Graph) (a : NodeId) : Prop :=
  TransGen g.Next a a

theorem Next.unique {a b c : NodeId} (h : g.Next a b) (h' : g.Next a c) : b = c := by
  obtain ⟨name, h⟩ := h
  obtain ⟨name', h'⟩ := h'
  rw [h] at h'
  cases h'
  rfl

theorem Next.lt {a b : NodeId} (h : g.Next a b) : a < g.size := by
  obtain ⟨name, h⟩ := h
  rw [← isSome_node?, ← isSome_parser?, h]
  rfl

theorem Next.child {a b : NodeId} (h : g.Next a b) : g.Child (.node a) (.node b) := by
  obtain ⟨name, h⟩ := h
  exact ⟨_, h, by simp [Parser.children]⟩

theorem Leads.reaches {a b : NodeId} (h : g.Leads a b) : g.Reaches (.node a) (.node b) :=
  ReflTransGen.lift Object.node (fun _ _ => Next.child) _ _ h

/-- No target follows. -/
def Terminal (g : Graph) (e : NodeId) : Prop :=
  ∀ b, ¬ g.Next e b

theorem terminal_of_not_forward {e : NodeId} (h : g.isForward (.node e) = false) :
    g.Terminal e := by
  rintro b ⟨name, hb⟩
  simp [isForward_eq hb, Parser.isForward] at h

theorem terminal_of_unbound {e : NodeId} {name : Value}
    (h : g.parser? (.node e) = some (.forward name none)) : g.Terminal e := by
  rintro b ⟨name', hb⟩
  rw [h] at hb
  cases hb

/-- A chain never branches: its end is the end of every node on it. -/
theorem Leads.to_terminal {a x e : NodeId} (he : g.Terminal e) (h : g.Leads a e)
    (h' : g.Leads a x) : g.Leads x e := by
  induction h' with
  | refl => exact h
  | tail _ hn ih =>
    rcases ih.cases_head with rfl | ⟨z, hz, hze⟩
    · exact absurd hn (he _)
    · rwa [hn.unique hz]

theorem Leads.eq_of_terminal {a e e' : NodeId} (he : g.Terminal e) (he' : g.Terminal e')
    (h : g.Leads a e) (h' : g.Leads a e') : e = e' := by
  rcases (h.to_terminal he h').cases_head with rfl | ⟨z, hz, -⟩
  · rfl
  · exact absurd hz (he' z)

/-- A chain that ends does not come back. -/
theorem Leads.not_loop {a e : NodeId} (he : g.Terminal e) (h : g.Leads a e) : ¬ g.Loop a := by
  induction h using ReflTransGen.head_induction_on with
  | refl =>
    intro hl
    obtain ⟨z, hz, -⟩ := TransGen.head'_iff.mp hl
    exact he z hz
  | head hn _ ih =>
    intro hl
    obtain ⟨z, hz, hza⟩ := TransGen.head'_iff.mp hl
    obtain rfl := hn.unique hz
    exact ih (TransGen.tail' hza hn)

/-! ## Following a chain -/

theorem length_le_size {seen : List NodeId} (hn : seen.Nodup) (h : ∀ x ∈ seen, x < g.size) :
    seen.length ≤ g.size := by
  have := (List.Nodup.subperm hn fun x hx => List.mem_range.mpr (h x hx)).length_le
  rwa [List.length_range] at this

/-- What was passed on the way: each node once, and each leads on to the present one. -/
structure Passed (g : Graph) (seen : List NodeId) (id : NodeId) : Prop where
  nodup : seen.Nodup
  leads : ∀ x ∈ seen, TransGen g.Next x id

theorem Passed.length_le {seen : List NodeId} {id : NodeId} (h : g.Passed seen id) :
    seen.length ≤ g.size := by
  refine length_le_size h.nodup fun x hx => ?_
  obtain ⟨z, hz, -⟩ := TransGen.head'_iff.mp (h.leads x hx)
  exact hz.lt

theorem Passed.cons {seen : List NodeId} {id next : NodeId} (h : g.Passed seen id)
    (hid : id ∉ seen) (hn : g.Next id next) : g.Passed (id :: seen) next := by
  refine ⟨List.nodup_cons.mpr ⟨hid, h.nodup⟩, fun x hx => ?_⟩
  rcases List.mem_cons.mp hx with rfl | hx
  · exact .single hn
  · exact (h.leads x hx).tail hn

theorem resolveFrom_cases {steps : Nat} {seen : List NodeId} {id : NodeId}
    (hp : g.Passed seen id) (hs : g.size < steps + seen.length) :
    (∃ r, g.resolveFrom steps seen id = .ok r ∧ g.Leads id r ∧ g.isForward (.node r) = false) ∨
    (∃ u name, g.resolveFrom steps seen id = .error (.defect (.neverBound name)) ∧
      g.Leads id u ∧ g.parser? (.node u) = some (.forward name none)) ∨
    (∃ x name, g.resolveFrom steps seen id = .error (.defect (.boundToItself name)) ∧
      g.Leads id x ∧ g.Loop x) := by
  induction steps generalizing seen id with
  | zero => have := hp.length_le; omega
  | succ steps ih =>
    simp only [resolveFrom]
    split
    · rename_i name target hf
      cases target with
      | none => exact .inr (.inl ⟨id, name, rfl, .refl, hf⟩)
      | some next =>
        have hn : g.Next id next := ⟨name, hf⟩
        by_cases hid : id ∈ seen
        · exact .inr (.inr ⟨id, name, by simp [hid], .refl, hp.leads id hid⟩)
        simp only [List.contains_iff_mem, hid, ↓reduceIte]
        obtain ⟨r, hr, hl, hf⟩ | ⟨u, name, hr, hl, hu⟩ | ⟨x, name, hr, hl, hx⟩ :=
          ih (hp.cons hid hn) (by simp only [List.length_cons]; omega)
        · exact .inl ⟨r, hr, .head hn hl, hf⟩
        · exact .inr (.inl ⟨u, name, hr, .head hn hl, hu⟩)
        · exact .inr (.inr ⟨x, name, hr, .head hn hl, hx⟩)
    · rename_i hf
      refine .inl ⟨id, rfl, .refl, ?_⟩
      unfold isForward
      cases hq : g.parser? (.node id) with
      | none => rfl
      | some p => cases p <;> first | rfl | exact absurd hq (hf _ _)

/-- A chain comes to a node that is no forward reference, or to a reference without a target, or
back to itself. -/
theorem resolve_cases (g : Graph) (id : NodeId) :
    (∃ r, g.resolve id = .ok r ∧ g.Leads id r ∧ g.isForward (.node r) = false) ∨
    (∃ u name, g.resolve id = .error (.defect (.neverBound name)) ∧
      g.Leads id u ∧ g.parser? (.node u) = some (.forward name none)) ∨
    (∃ x name, g.resolve id = .error (.defect (.boundToItself name)) ∧
      g.Leads id x ∧ g.Loop x) :=
  resolveFrom_cases ⟨List.nodup_nil, by simp⟩ (by simp)

theorem resolve_eq_ok_iff {id r : NodeId} :
    g.resolve id = .ok r ↔ g.Leads id r ∧ g.isForward (.node r) = false := by
  constructor
  · intro h
    rcases g.resolve_cases id with ⟨r', hr, hl, hf⟩ | ⟨u, name, hr, -⟩ | ⟨x, name, hr, -⟩
    · rw [hr] at h; cases h; exact ⟨hl, hf⟩
    · rw [hr] at h; cases h
    · rw [hr] at h; cases h
  · rintro ⟨hl, hf⟩
    have ht := terminal_of_not_forward hf
    rcases g.resolve_cases id with ⟨r', hr, hl', hf'⟩ | ⟨u, name, -, hl', hu⟩ | ⟨x, name, -, hl', hx⟩
    · rw [hr, hl.eq_of_terminal ht (terminal_of_not_forward hf') hl']
    · obtain rfl := hl.eq_of_terminal ht (terminal_of_unbound hu) hl'
      simp [isForward_eq hu, Parser.isForward] at hf
    · exact absurd hx ((hl.to_terminal ht hl').not_loop ht)

/-- A node that is no forward reference stands for itself. -/
theorem resolve_self {id : NodeId} (h : g.isForward (.node id) = false) : g.resolve id = .ok id :=
  resolve_eq_ok_iff.mpr ⟨.refl, h⟩

theorem Next.resolve {a b r : NodeId} (hn : g.Next a b) (h : g.resolve a = .ok r) :
    g.resolve b = .ok r := by
  obtain ⟨hl, hf⟩ := resolve_eq_ok_iff.mp h
  exact resolve_eq_ok_iff.mpr ⟨hl.to_terminal (terminal_of_not_forward hf) (.single hn), hf⟩

/-- Following a chain for a loop only: it is one, or it comes to an end. -/
theorem loopsFrom_cases {steps : Nat} {seen : List NodeId} {id : NodeId}
    (hp : g.Passed seen id) (hs : g.size < steps + seen.length) :
    (g.loopsFrom steps seen id = true ∧ ∃ x, g.Leads id x ∧ g.Loop x) ∨
      (g.loopsFrom steps seen id = false ∧ ∃ e, g.Leads id e ∧ g.Terminal e) := by
  induction steps generalizing seen id with
  | zero => have := hp.length_le; omega
  | succ steps ih =>
    simp only [loopsFrom]
    split
    · rename_i name next hf
      have hn : g.Next id next := ⟨name, hf⟩
      by_cases hid : id ∈ seen
      · exact .inl ⟨by simp [hid], id, .refl, hp.leads id hid⟩
      simp only [List.contains_eq_mem, hid, decide_false, Bool.false_or]
      obtain ⟨hr, x, hl, hx⟩ | ⟨hr, e, hl, he⟩ :=
        ih (hp.cons hid hn) (by simp only [List.length_cons]; omega)
      · exact .inl ⟨hr, x, .head hn hl, hx⟩
      · exact .inr ⟨hr, e, .head hn hl, he⟩
    · rename_i hf
      exact .inr ⟨rfl, id, .refl, fun b ⟨name, hb⟩ => hf name b hb⟩

/-! ## Graphs with the same forward references -/

/-- The forward references of two graphs are the same, with their targets. -/
structure SameForwards (g g' : Graph) : Prop where
  size : g'.size = g.size
  parser? (id : NodeId) (name : Value) (target : Option NodeId) :
    g'.parser? (.node id) = some (.forward name target) ↔
      g.parser? (.node id) = some (.forward name target)

theorem SameForwards.isForward (h : g.SameForwards g') (o : Object) :
    g'.isForward o = g.isForward o := by
  have key : ∀ {g₁ g₂ : Graph} {o}, (∀ id name target,
      g₁.parser? (.node id) = some (.forward name target) →
        g₂.parser? (.node id) = some (.forward name target)) →
      g₁.isForward o = true → g₂.isForward o = true := by
    intro g₁ g₂ o h hf
    obtain ⟨p, hp, hpf⟩ := (Option.any_eq_true ..).mp hf
    obtain ⟨id, rfl⟩ := exists_of_parser? hp
    cases p with
    | forward name target => simp [Graph.isForward, h _ _ _ hp, Parser.isForward]
    | _ => cases hpf
  rw [Bool.eq_iff_iff]
  exact ⟨key fun id name target => (h.parser? id name target).mp,
    key fun id name target => (h.parser? id name target).mpr⟩

theorem SameForwards.next (h : g.SameForwards g') : g'.Next = g.Next := by
  ext a b
  exact exists_congr fun name => h.parser? a name (some b)

theorem SameForwards.resolve_eq_ok (h : g.SameForwards g') {a r : NodeId} :
    g'.resolve a = .ok r ↔ g.resolve a = .ok r := by
  rw [resolve_eq_ok_iff, resolve_eq_ok_iff, Leads, Leads, h.next, h.isForward]

/-! ## Roots that can be resolved -/

/-- What a root reaches are nodes, and the forward references there are bound and come to a node
that is none. -/
structure Resolvable (g : Graph) (root : Object) : Prop where
  isSome {o : Object} : g.Reaches root o → (g.node? o).isSome
  bound {o : Object} {name : Value} : g.Reaches root o → g.parser? o ≠ some (.forward name none)
  acyclic {id : NodeId} : g.Reaches root (.node id) → ¬ g.Loop id

/-- Every object that a resolvable root reaches leads to a node that is no forward reference. -/
theorem Resolvable.resolve {root : Object} (h : g.Resolvable root) {o : Object}
    (ho : g.Reaches root o) :
    ∃ a r p, o = .node a ∧ g.resolve a = .ok r ∧ g.Reaches root (.node r) ∧
      g.parser? (.node r) = some p ∧ p.isForward = false := by
  obtain ⟨a, node, rfl, -⟩ := node?_of_isSome (h.isSome ho)
  rcases g.resolve_cases a with ⟨r, hr, hl, hf⟩ | ⟨u, name, -, hl, hu⟩ | ⟨x, name, -, hl, hx⟩
  · have hro := ho.trans hl.reaches
    obtain ⟨p, hp⟩ := Option.isSome_iff_exists.mp (isSome_parser? ▸ h.isSome hro)
    exact ⟨a, r, p, rfl, hr, hro, hp, isForward_eq hp ▸ hf⟩
  · exact absurd hu (h.bound (ho.trans hl.reaches))
  · exact absurd hx (h.acyclic (ho.trans hl.reaches))

end ParserGraph.Graph
