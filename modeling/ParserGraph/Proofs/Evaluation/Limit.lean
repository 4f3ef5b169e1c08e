import Mathlib.Data.Finset.Prod
import Mathlib.Order.Monotone.Basic
import ParserGraph.Proofs.Evaluation.Correspondence

/-!
# The depth limit of an evaluation

An evaluation that ends at some depth ends in the same way at every greater one (`evaluate_mono`),
never goes back before its start and never goes past the end of the content (`evaluate_bounds`).
Which objects end at which positions within a depth is therefore a finite matter, and once a greater
depth adds no new one, no depth ever will: `Graph.depthLimit` is enough. So `Graph.parse` gives what
an evaluation without a limit gives, and is given up only where that would not end
(`parse_eq_iff`, `parse_givenUp_iff`).
-/

namespace ParserGraph

instance (o : Outcome) : Decidable (o = .givenUp) :=
  match o with
  | .givenUp => isTrue rfl
  | .matched _ | .mismatch | .raised _ => isFalse nofun

/-- A run that may go deeper and deeper ends in the given way. -/
def EndsIn (run : Nat → Object → Attempt) (o : Object) (s : Progress) (r : Outcome × Progress) :
    Prop :=
  r.1 ≠ .givenUp ∧ ∃ depth, run depth o s = r

/-- Elements are found only before the end. -/
theorem Content.lt_size_of_read {content : Content} {i : Int} {v : Value}
    (h : content.read i = .ok (some v)) : i < content.size?.getD 0 := by
  cases content with
  | indexed elements =>
    simp only [Content.read] at h
    split at h
    · cases h
    · rename_i hi
      simpa [Content.size?] using hi
  | keyed size =>
    simp only [Content.read] at h
    split at h <;> cases h
  | unsized => cases h

namespace Correspondence

variable (content : Content)

/-- States are the same. -/
def sameStates (objects : Object → Object → Prop) (faults : Fault → Fault → Prop)
    (faults_refl : ∀ f, faults f f) : Correspondence content content where
  objects := objects
  states s s' := s' = s
  faults := faults
  faults_refl := faults_refl
  read h := by rw [h]
  atEnd h := by rw [h]
  remaining h := by rw [h]
  moveOn h _ := by rw [h]
  moveTo h h' := by rw [h, h']
  addNote _ h := by rw [h]
  position_eq h h' := by rw [h, h']

/-- Nothing differs. -/
def same : Correspondence content content :=
  sameStates content (fun o o' => o' = o) (fun f f' => f' = f) fun _ => rfl

/-- The notes may differ, and positions lie between a start and the end of the content. -/
def within (start : Int) : Correspondence content content where
  objects o o' := o' = o
  states s s' := s'.position = s.position ∧ start ≤ s.position ∧
    s.position ≤ start + content.remaining start
  faults f f' := f' = f
  faults_refl _ := rfl
  read h := by rw [h.1]
  atEnd h := by rw [h.1]
  remaining h := by rw [h.1]
  moveOn {s s' _} h hr := by
    have := Content.lt_size_of_read hr
    have := h.1
    simp only [Content.remaining] at h ⊢
    refine ⟨?_, ?_, ?_⟩ <;> simp only [Progress.moveTo] <;> omega
  moveTo h _ := h
  addNote note h := by cases note <;> exact h
  position_eq h h' := by rw [h.1, h'.1]

variable {content} in
/-- A graph corresponds to itself where every object belongs to itself only. -/
theorem corresponds_self {right : Content} {C : Correspondence content right}
    (h : ∀ o o', C.objects o o' ↔ o' = o) (g : Graph) : g.Corresponds C g where
  raises := raises_self (fun o o' => (h o o').mp) g.raise
  shape o o' ho := by
    obtain rfl := (h o o').mp ho
    cases hp : g.parser? o' with
    | some p => exact .inl ⟨p, p, rfl, rfl, .refl C.objects (fun o => (h o o).mpr rfl) p⟩
    | none => exact .inr ⟨rfl, rfl, C.faults_refl _⟩

theorem corresponds_same (g : Graph) : g.Corresponds (same content) g :=
  corresponds_self (fun _ _ => .rfl) g

theorem corresponds_within (g : Graph) (start : Int) :
    g.Corresponds (within content start) g :=
  corresponds_self (fun _ _ => .rfl) g

end Correspondence

/-- Where the first side was not given up, equal states mean equal ends. -/
theorem Agrees.eq {r r' : Outcome × Progress}
    (h : Agrees (fun s s' => s' = s) (fun f f' => f' = f) r r') (hr : r.1 ≠ .givenUp) : r' = r := by
  cases h with
  | givenUp => exact absurd rfl hr
  | matched _ h => rw [h]
  | mismatch h => rw [h]
  | raised hf h => rw [hf, h]

/-- The states after runs that agree belong together. -/
theorem Agrees.states {states : Progress → Progress → Prop} {faults : Fault → Fault → Prop}
    {r r' : Outcome × Progress} (h : Agrees states faults r r') (hr : r.1 ≠ .givenUp) :
    states r.2 r'.2 := by
  cases h with
  | givenUp => exact absurd rfl hr
  | matched _ h | mismatch h | raised _ h => exact h

theorem Agrees.ne_givenUp {states : Progress → Progress → Prop} {faults : Fault → Fault → Prop}
    {r r' : Outcome × Progress} (h : Agrees states faults r r') (hr : r.1 ≠ .givenUp) :
    r'.1 ≠ .givenUp := by
  cases h with
  | givenUp => exact absurd rfl hr
  | matched | mismatch | raised => simp

namespace Graph

variable (g : Graph) (content : Content)

/-- A run that ends within a depth ends in the same way within every greater one. -/
theorem evaluate_mono {depth depth' : Nat} (hd : depth ≤ depth') {o : Object} {s : Progress}
    (h : (g.evaluate content depth o s).1 ≠ .givenUp) :
    g.evaluate content depth' o s = g.evaluate content depth o s :=
  (evaluate_agrees (Correspondence.corresponds_same content g) hd rfl rfl).eq h

/-- A run ends between its start and the end of the content. -/
theorem evaluate_bounds {depth : Nat} {o : Object} {s : Progress}
    (h : (g.evaluate content depth o s).1 ≠ .givenUp) :
    s.position ≤ (g.evaluate content depth o s).2.position ∧
      (g.evaluate content depth o s).2.position ≤
        s.position + content.remaining s.position := by
  have hs : (Correspondence.within content s.position).states s s :=
    ⟨rfl, Int.le_refl _, Int.le_add_of_nonneg_right (Int.natCast_nonneg _)⟩
  exact ((evaluate_agrees (Correspondence.corresponds_within content g s.position)
    (Nat.le_refl depth) rfl hs).states h).2

variable {g content}

/-- An evaluation ends in one way only. -/
theorem EndsIn.unique {o : Object} {s : Progress} {r r' : Outcome × Progress}
    (h : EndsIn (g.evaluate content) o s r) (h' : EndsIn (g.evaluate content) o s r') : r = r' := by
  obtain ⟨hr, depth, rfl⟩ := h
  obtain ⟨hr', depth', rfl⟩ := h'
  rcases Nat.le_total depth depth' with hd | hd
  · exact (g.evaluate_mono content hd hr).symm
  · exact g.evaluate_mono content hd hr'

/-! ## The limit is enough -/

variable (g content)

/-- The nodes that end within a depth, with how far from a start they do. -/
def endings (start : Int) (depth : Nat) : Finset (NodeId × Nat) :=
  {at_ ∈ Finset.range g.size ×ˢ Finset.range (content.remaining start + 1) |
    (g.evaluate content (depth + 1) (.node at_.1) { position := start + at_.2 }).1 ≠ .givenUp}

variable {g content}

theorem mem_endings {start : Int} {depth : Nat} {id : NodeId} {k : Nat} :
    (id, k) ∈ g.endings content start depth ↔
      id < g.size ∧ k ≤ content.remaining start ∧
        (g.evaluate content (depth + 1) (.node id) { position := start + k }).1 ≠ .givenUp := by
  simp only [endings, Finset.mem_filter, Finset.mem_product, Finset.mem_range, Nat.lt_succ_iff,
    and_assoc]

theorem endings_mono (start : Int) : Monotone (g.endings content start) := by
  rintro depth depth' hd ⟨id, k⟩ h
  obtain ⟨hid, hk, he⟩ := mem_endings.mp h
  refine mem_endings.mpr ⟨hid, hk, ?_⟩
  rwa [g.evaluate_mono content (Nat.succ_le_succ hd) he]

theorem card_endings_le (start : Int) (depth : Nat) :
    (g.endings content start depth).card ≤ g.size * (content.remaining start + 1) := by
  refine (Finset.card_filter_le _ _).trans ?_
  rw [Finset.card_product, Finset.card_range, Finset.card_range]

theorem lt_of_parser? {id : NodeId} {p : Parser} (h : g.parser? (.node id) = some p) :
    id < g.size := by
  simp only [parser?, node?, Option.map_eq_some_iff] at h
  obtain ⟨node, hn, -⟩ := h
  exact (Array.getElem?_eq_some_iff.mp hn).1

/-- Whether a run ends does not depend on the notes it starts with. -/
theorem ends_of_position {depth : Nat} {o : Object} {s s' : Progress}
    (hs : s'.position = s.position) (h : (g.evaluate content depth o s).1 ≠ .givenUp) :
    (g.evaluate content depth o s').1 ≠ .givenUp := by
  have hs' : (Correspondence.within content s.position).states s s' :=
    ⟨hs, Int.le_refl _, Int.le_add_of_nonneg_right (Int.natCast_nonneg _)⟩
  exact (evaluate_agrees (Correspondence.corresponds_within content g s.position)
    (Nat.le_refl depth) rfl hs').ne_givenUp h

/-- A depth that adds no ending agrees with the one before it. -/
theorem runs_of_endings_eq {start : Int} {depth : Nat}
    (h : g.endings content start (depth + 1) ⊆ g.endings content start depth) :
    (Correspondence.within content start).Runs (g.evaluate content (depth + 2))
      (g.evaluate content (depth + 1)) := by
  rintro _ o rfl s s' hs
  by_cases he : (g.evaluate content (depth + 2) o s).1 = .givenUp
  · generalize g.evaluate content (depth + 2) o s = r at he ⊢
    obtain ⟨_, t⟩ := r
    subst he
    exact .givenUp t _
  -- The shallower run ends too: at once if the object is no node, else by the hypothesis.
  have he' : (g.evaluate content (depth + 1) o s).1 ≠ .givenUp := by
    cases hp : g.parser? o with
    | none => simp [evaluate_succ, hp]
    | some p =>
      obtain ⟨id, rfl⟩ : ∃ id, o = .node id := by
        cases o with
        | node id => exact ⟨id, rfl⟩
        | _ => cases hp
      obtain ⟨k, hk, hsk⟩ : ∃ k ≤ content.remaining start, s.position = start + k :=
        ⟨(s.position - start).toNat, by have := hs.2; omega, by have := hs.2; omega⟩
      have hm : (id, k) ∈ g.endings content start (depth + 1) :=
        mem_endings.mpr ⟨lt_of_parser? hp, hk, ends_of_position (s := s) hsk.symm he⟩
      exact ends_of_position (s := { position := start + k }) hsk (mem_endings.mp (h hm)).2.2
  rw [g.evaluate_mono content (Nat.le_succ _) he']
  exact evaluate_agrees (Correspondence.corresponds_within content g start) (Nat.le_refl _) rfl hs

/-- Once a depth adds no ending, the next one adds none either. -/
theorem endings_stable {start : Int} {depth : Nat}
    (h : g.endings content start (depth + 1) ⊆ g.endings content start depth) :
    g.endings content start (depth + 2) ⊆ g.endings content start (depth + 1) := by
  rintro ⟨id, k⟩ hm
  obtain ⟨hid, hk, he⟩ := mem_endings.mp hm
  refine mem_endings.mpr ⟨hid, hk, ?_⟩
  obtain ⟨p, hp⟩ : ∃ p, g.parser? (.node id) = some p := by
    simp [parser?, node?, Array.getElem?_eq_getElem (show id < g.nodes.size from hid)]
  rw [evaluate_succ, hp] at he ⊢
  exact (Parser.attempt_agrees (Correspondence.within content start)
    (Correspondence.corresponds_within content g start).raises (runs_of_endings_eq h)
    (.refl (Correspondence.within content start).objects (fun _ => rfl) p)
    ⟨rfl, Int.le_add_of_nonneg_right (Int.natCast_nonneg _),
      Int.add_le_add_left (Int.ofNat_le.mpr hk) start⟩).ne_givenUp he

/-- What ends within some depth ends within the depth limit. -/
theorem ends_within_limit {depth : Nat} {o : Object} {s : Progress}
    (h : (g.evaluate content depth o s).1 ≠ .givenUp) :
    (g.evaluate content (g.depthLimit content s.position) o s).1 ≠ .givenUp := by
  cases hp : g.parser? o with
  | none => simp [depthLimit, evaluate_succ, hp]
  | some p =>
    obtain ⟨id, rfl⟩ : ∃ id, o = .node id := by
      cases o with
      | node id => exact ⟨id, rfl⟩
      | _ => cases hp
    set start := s.position
    set limit := g.size * (content.remaining start + 1) with hl
    have hcard : (g.endings content start (max depth limit)).card =
        (g.endings content start limit).card := by
      refine Nat.stabilises_of_monotone (f := fun d => (g.endings content start d).card)
        (fun _ _ hd => Finset.card_le_card (endings_mono start hd)) (card_endings_le start)
        (fun d hd => ?_) (Nat.le_max_right _ _)
      have hs := Finset.eq_of_subset_of_card_le (endings_mono start (Nat.le_succ d)) hd.ge
      exact (Finset.card_le_card (endings_mono start (Nat.le_succ _))).antisymm
        (Finset.card_le_card (endings_stable hs.ge))
    have heq := Finset.eq_of_subset_of_card_le
      (endings_mono start (Nat.le_max_right depth limit)) hcard.le
    have hm : (id, 0) ∈ g.endings content start (max depth limit) := by
      refine mem_endings.mpr ⟨lt_of_parser? hp, Nat.zero_le _, ?_⟩
      refine ends_of_position (s := s) (Int.add_zero start) ?_
      rwa [g.evaluate_mono content (by omega) h]
    rw [← heq] at hm
    exact ends_of_position (Int.add_zero start).symm (mem_endings.mp hm).2.2

/-- A parse gives what an evaluation without a limit gives. -/
theorem parse_eq_iff {o : Object} {i : Int} {r : Outcome × Progress} (hr : r.1 ≠ .givenUp) :
    g.parse o content i = r ↔ EndsIn (g.evaluate content) o { position := i } r := by
  constructor
  · rintro rfl
    exact ⟨hr, _, rfl⟩
  · rintro ⟨-, depth, rfl⟩
    exact EndsIn.unique ⟨ends_within_limit hr, _, rfl⟩ ⟨hr, depth, rfl⟩

/-- A parse is given up only if the evaluation without a limit does not end. -/
theorem parse_givenUp_iff {o : Object} {i : Int} :
    (g.parse o content i).1 = .givenUp ↔
      ∀ r, ¬ EndsIn (g.evaluate content) o { position := i } r := by
  constructor
  · rintro h _ ⟨hr, depth, rfl⟩
    exact ends_within_limit hr h
  · intro h
    by_contra hn
    exact h _ ((parse_eq_iff hn).mp rfl)

end Graph

end ParserGraph
