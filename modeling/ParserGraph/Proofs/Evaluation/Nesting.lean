import Mathlib.Data.Int.Interval
import Mathlib.Data.List.Chain
import Mathlib.Data.Set.Card
import ParserGraph.Proofs.Evaluation.Positional
import ParserGraph.Proofs.Graph.Walk

/-!
# Calls inside each other

While an object is run at a position it runs others, and a run that goes on forever does so because
there are always more of them inside each other. `Graph.Calls` says which run a run makes, so a row
of calls, each made by the one before, is what is active at one time. An evaluation to a depth is
given up exactly if more calls than that can be made inside each other (`evaluate_givenUp_iff`).

Calls stay among the objects that the first one reaches, and between its position and the end, as a
match never goes back. So a row of calls that are all different is short (`length_le_of_nodup`), and
a call that is made again inside itself is made again and again (`nested_of_loop`): an evaluation
ends exactly if no call is ever made inside itself (`endsByCalls_of_nodes`).
-/

namespace ParserGraph

/-- In a row of objects that are read one after the other, one whose turn comes, and where. -/
inductive Graph.Turn (g : Graph) (content : Content) : List Object → Int → Object × Int → Prop
  | head {o : Object} {os : List Object} {i : Int} : Turn g content (o :: os) i (o, i)
  | tail {o : Object} {os : List Object} {i j : Int} {v : Value} {y : Object × Int} :
    g.Reads content o i (.ok v j) → Turn g content os j y → Turn g content (o :: os) i y

/-- So many rounds of a repetition, each of which matches and moves on, from one position to
another. The next round starts there. -/
inductive Graph.Rounds (g : Graph) (content : Content) (o : Object) : Nat → Int → Int → Prop
  | none {i : Int} : Rounds g content o 0 i i
  | more {n : Nat} {i j k : Int} {v : Value} : g.Reads content o i (.ok v j) → j ≠ i →
    Rounds g content o n j k → Rounds g content o (n + 1) i k

/-- What a parser that is run at a position runs, and where. -/
def Parser.Calls (g : Graph) (content : Content) : Parser → Int → Object × Int → Prop
  | .sequence os, i, y => g.Turn content os i y
  | .alternation a b, i, y => y = (a, i) ∨ g.Reads content a i .fail ∧ y = (b, i)
  | .repetition a, i, y => ∃ n j, g.Rounds content a n i j ∧ y = (a, j)
  | .map a _, i, y => y = (a, i)
  | .literal .., _, _ | .endOfInput, _, _ | .forward .., _, _ => False

namespace Graph

open Relation
open Verdict (ofRun?)

/-- A call, of an object at a position, makes another one. -/
def Calls (g : Graph) (content : Content) (x y : Object × Int) : Prop :=
  ∃ p, g.parser? x.1 = some p ∧ p.Calls g content x.2 y

/-- Calls that are active at one time, each made by the one before. -/
abbrev Active (g : Graph) (content : Content) (calls : List (Object × Int)) : Prop :=
  calls.IsChain (g.Calls content)

/-- So many calls can be made one inside the other, the first of them by the given one. -/
def Nested (g : Graph) (content : Content) (depth : Nat) (x : Object × Int) : Prop :=
  ∃ calls, calls.length = depth ∧ g.Active content (x :: calls)

variable {g : Graph} {content : Content}

theorem nested_zero (x : Object × Int) : g.Nested content 0 x :=
  ⟨[], rfl, .singleton x⟩

theorem nested_succ {depth : Nat} {x : Object × Int} :
    g.Nested content (depth + 1) x ↔ ∃ y, g.Calls content x y ∧ g.Nested content depth y := by
  constructor
  · rintro ⟨_ | ⟨y, calls⟩, hl, h⟩
    · cases hl
    · rw [Active, List.isChain_cons_cons] at h
      exact ⟨y, h.1, calls, Nat.succ.inj hl, h.2⟩
  · rintro ⟨y, hc, calls, hl, h⟩
    exact ⟨y :: calls, congrArg (· + 1) hl, List.isChain_cons_cons.mpr ⟨hc, h⟩⟩

/-- A match does not go back, nor past the end. -/
theorem Reads.bounds {o : Object} {i j : Int} {v : Value} (h : g.Reads content o i (.ok v j)) :
    i ≤ j ∧ j ≤ i + content.remaining i := by
  obtain ⟨enough, hd⟩ := h.evaluatesTo
  have hr := hd enough (Nat.le_refl _) { position := i } rfl
  have hb := g.evaluate_bounds content (ne_givenUp_of_ofRun? hr)
  obtain ⟨s, hs, rfl⟩ := eq_matched_of_ofRun? hr
  rwa [hs] at hb

/-! ## What is given up -/

theorem exists_turn_cons {o : Object} {os : List Object} {i : Int} {D : Object × Int → Prop} :
    (∃ y, g.Turn content (o :: os) i y ∧ D y) ↔
      D (o, i) ∨ ∃ v j, g.Reads content o i (.ok v j) ∧ ∃ y, g.Turn content os j y ∧ D y := by
  constructor
  · rintro ⟨y, _ | ⟨ho, h⟩, hy⟩
    · exact .inl hy
    · exact .inr ⟨_, _, ho, y, h, hy⟩
  · rintro (hy | ⟨v, j, ho, y, h, hy⟩)
    · exact ⟨_, .head, hy⟩
    · exact ⟨y, .tail ho h, hy⟩

theorem exists_rounds {o : Object} {i : Int} {D : Object × Int → Prop} :
    (∃ n j, g.Rounds content o n i j ∧ D (o, j)) ↔
      D (o, i) ∨ ∃ v k, g.Reads content o i (.ok v k) ∧
        (k ≠ i ∧ ∃ n j, g.Rounds content o n k j ∧ D (o, j)) := by
  constructor
  · rintro ⟨_, j, _ | ⟨ho, hk, h⟩, hj⟩
    · exact .inl hj
    · exact .inr ⟨_, _, ho, hk, _, j, h, hj⟩
  · rintro (hj | ⟨v, k, ho, hk, n, j, h, hj⟩)
    · exact ⟨0, i, .none, hj⟩
    · exact ⟨n + 1, j, .more ho hk h, hj⟩

section

variable {raise : Defect → Fault} {run : Object → Attempt} {D : Object × Int → Prop}
  (hrun : ∀ {o s e}, ofRun? (run o s) = some e → g.Reads content o s.position e)
  (hD : ∀ o s, (run o s).1 = .givenUp ↔ D (o, s.position))

include hrun hD

/-- A run is given up, or it matches and what follows decides. -/
theorem givenUp_or_iff {o : Object} {s : Progress} {P : Value → Int → Prop} :
    (D (o, s.position) ∨ ∃ v j, g.Reads content o s.position (.ok v j) ∧ P v j) ↔
      match run o s with
      | (.givenUp, _) => True
      | (.matched v, s') => P v s'.position
      | _ => False := by
  have ho := @hrun o s
  rw [← hD]
  generalize run o s = r at ho ⊢
  obtain ⟨out, s'⟩ := r
  have key {e : Verdict Value} (he : ofRun? (out, s') = some e) :
      (∃ v j, g.Reads content o s.position (.ok v j) ∧ P v j) ↔ ∃ v j, e = .ok v j ∧ P v j := by
    refine exists_congr fun v => exists_congr fun j => and_congr_left' ?_
    exact ⟨fun h => (ho he).unique h, fun h => h ▸ ho he⟩
  cases out with
  | givenUp => simp
  | matched v => simp [key (e := .ok v s'.position) rfl]
  | mismatch => simp [key (e := .fail) rfl]
  | raised f => simp [key (e := .error f) rfl]

/-- A row of objects is given up at the first one that is. -/
theorem sequence_givenUp_iff {start : Int} {os : List Object} {results : List Value}
    {s : Progress} :
    (Attempt.sequence run start os results s).1 = .givenUp ↔
      ∃ y, g.Turn content os s.position y ∧ D y := by
  induction os generalizing results s with
  | nil =>
    refine iff_of_false nofun ?_
    rintro ⟨y, ⟨⟩, -⟩
  | cons o os ih =>
    rw [exists_turn_cons, givenUp_or_iff hrun hD]
    simp only [Attempt.sequence]
    rcases run o s with ⟨_ | _ | _ | _, s'⟩
    · exact ih
    all_goals simp

/-- A repetition is given up at the first round that is; its limit to the number of rounds is never
reached. -/
theorem repetition_givenUp_iff {o : Object} {rounds : Nat} {results : List Value} {s : Progress}
    (hr : content.remaining s.position < rounds) :
    (Attempt.repetition raise run o rounds results s).1 = .givenUp ↔
      ∃ n j, g.Rounds content o n s.position j ∧ D (o, j) := by
  induction rounds generalizing results s with
  | zero => omega
  | succ rounds ih =>
    have ho := @hrun o s
    rw [exists_rounds, givenUp_or_iff hrun hD]
    simp only [Attempt.repetition]
    generalize run o s = r at ho ⊢
    rcases r with ⟨_ | _ | _ | _, s'⟩
    case matched v =>
      by_cases hs : s'.position = s.position
      · simp [hs]
      · have hb := (ho rfl).bounds
        simp only [Content.remaining] at hb hr
        simp only [hs, ↓reduceIte]
        rw [ih (by simp only [Content.remaining]; omega)]
        simp [hs]
    all_goals simp

theorem alternation_givenUp_iff {a b : Object} {s : Progress} :
    (Attempt.alternation run a b s).1 = .givenUp ↔
      D (a, s.position) ∨ g.Reads content a s.position .fail ∧ D (b, s.position) := by
  have ha := @hrun a s
  rw [← hD]
  simp only [Attempt.alternation]
  generalize run a s = r at ha ⊢
  obtain ⟨out, s'⟩ := r
  cases out with
  | givenUp => simp
  | mismatch => simp [hD, ha (e := .fail) rfl, Progress.moveTo]
  | matched v =>
    simp only [reduceCtorEq, false_or, false_iff, not_and]
    intro hf
    have he : Verdict.fail = .ok v s'.position := hf.unique (ha rfl)
    cases he
  | raised f =>
    simp only [reduceCtorEq, false_or, false_iff, not_and]
    intro hf
    have he : Verdict.fail = .error f := hf.unique (ha rfl)
    cases he

omit hrun in
theorem map_givenUp_iff {a : Object} {t : Transform} {s : Progress} :
    (Attempt.map run a t s).1 = .givenUp ↔ D (a, s.position) := by
  rw [← hD]
  simp only [Attempt.map]
  rcases run a s with ⟨_ | _ | _ | _, s'⟩
  case matched v =>
    refine iff_of_false (ne_givenUp_of_ofRun? (ofRun?_ofExcept _ _)) nofun
  all_goals simp

/-- A parser is given up if one of its calls is. -/
theorem attempt_givenUp_iff {p : Parser} {s : Progress} :
    (p.attempt raise run content s).1 = .givenUp ↔ ∃ y, p.Calls g content s.position y ∧ D y := by
  cases p with
  | literal lower upper =>
    refine iff_of_false (ne_givenUp_of_ofRun? (ofRun?_literal lower upper s)) ?_
    simp [Parser.Calls]
  | sequence os => exact sequence_givenUp_iff hrun hD
  | alternation a b =>
    refine (alternation_givenUp_iff hrun hD).trans ?_
    simp [Parser.Calls, or_and_right, exists_or, and_assoc]
  | repetition a =>
    refine (repetition_givenUp_iff hrun hD (Nat.lt_succ_self _)).trans ?_
    constructor
    · rintro ⟨n, j, h, hj⟩
      exact ⟨_, ⟨n, j, h, rfl⟩, hj⟩
    · rintro ⟨_, ⟨n, j, h, rfl⟩, hj⟩
      exact ⟨n, j, h, hj⟩
  | endOfInput =>
    refine iff_of_false (ne_givenUp_of_ofRun? (ofRun?_endOfInput s)) ?_
    simp [Parser.Calls]
  | map a t => simpa [Parser.attempt, Parser.Calls] using map_givenUp_iff hD
  | forward name target => simp [Parser.attempt, Parser.Calls]

end

/-- An evaluation to a depth is given up exactly if that many calls can be made inside it, one
inside the other. -/
theorem evaluate_givenUp_iff {depth : Nat} {o : Object} {s : Progress} :
    (g.evaluate content depth o s).1 = .givenUp ↔ g.Nested content depth (o, s.position) := by
  induction depth generalizing o s with
  | zero => exact iff_of_true rfl (nested_zero _)
  | succ depth ih =>
    rw [nested_succ, evaluate_succ]
    cases hp : g.parser? o with
    | none => simp [Calls, hp]
    | some p =>
      rw [attempt_givenUp_iff reads_of_evaluate fun o s => ih]
      simp [Calls, hp]

/-! ## Where calls are made -/

section

variable {L : Nat} (hL : content.size? = some L)

include hL

theorem Reads.le_size {o : Object} {i j : Int} {v : Value} (hi : i ≤ L)
    (h : g.Reads content o i (.ok v j)) : i ≤ j ∧ j ≤ L := by
  have hb := h.bounds
  simp only [Content.remaining, hL, Option.getD_some] at hb
  omega

theorem Turn.bounds {os : List Object} {i : Int} {y : Object × Int} (h : g.Turn content os i y)
    (hi : i ≤ L) : y.1 ∈ os ∧ i ≤ y.2 ∧ y.2 ≤ L := by
  induction h with
  | head => exact ⟨List.mem_cons_self .., Int.le_refl _, hi⟩
  | tail ho _ ih =>
    obtain ⟨hij, hj⟩ := ho.le_size hL hi
    obtain ⟨hm, hy, hyL⟩ := ih hj
    exact ⟨List.mem_cons_of_mem _ hm, hij.trans hy, hyL⟩

/-- Each round moves on, so there are no more rounds than elements are left. -/
theorem Rounds.bounds {o : Object} {n : Nat} {i j : Int} (h : g.Rounds content o n i j)
    (hi : i ≤ L) : i + n ≤ j ∧ j ≤ L := by
  induction h with
  | none => exact ⟨by simp, hi⟩
  | more ho hj _ ih =>
    obtain ⟨hij, hjL⟩ := ho.le_size hL hi
    obtain ⟨hk, hkL⟩ := ih hjL
    push_cast
    omega

theorem Calls.bounds {x y : Object × Int} (h : g.Calls content x y) (hx : x.2 ≤ L) :
    g.Child x.1 y.1 ∧ x.2 ≤ y.2 ∧ y.2 ≤ L := by
  obtain ⟨o, i⟩ := x
  obtain ⟨p, hp, h⟩ := h
  have hchild {c : Object} (hc : c ∈ p.children) : g.Child o c := ⟨p, hp, hc⟩
  cases p with
  | literal | endOfInput | forward => exact h.elim
  | sequence os =>
    obtain ⟨hm, hy⟩ := h.bounds hL hx
    exact ⟨hchild hm, hy⟩
  | alternation a b =>
    rcases h with rfl | ⟨-, rfl⟩
    · exact ⟨hchild (by simp [Parser.children]), Int.le_refl _, hx⟩
    · exact ⟨hchild (by simp [Parser.children]), Int.le_refl _, hx⟩
  | repetition a =>
    obtain ⟨n, j, hr, rfl⟩ := h
    obtain ⟨hn, hj⟩ := hr.bounds hL hx
    exact ⟨hchild (by simp [Parser.children]), by simp only at hn ⊢; omega, hj⟩
  | map a t =>
    obtain rfl := h
    exact ⟨hchild (by simp [Parser.children]), Int.le_refl _, hx⟩

/-- Whatever is called inside a call is reached by its object, and starts between it and the end. -/
theorem bounds_of_reflTransGen {x y : Object × Int} (h : ReflTransGen (g.Calls content) x y)
    (hx : x.2 ≤ L) : g.Reaches x.1 y.1 ∧ x.2 ≤ y.2 ∧ y.2 ≤ L := by
  induction h with
  | refl => exact ⟨.refl, Int.le_refl _, hx⟩
  | tail _ hc ih =>
    obtain ⟨hr, hxy, hy⟩ := ih
    obtain ⟨hc, hyz, hz⟩ := hc.bounds hL hy
    exact ⟨hr.tail hc, hxy.trans hyz, hz⟩

omit hL in
theorem Active.reflTransGen {x y : Object × Int} {calls : List (Object × Int)}
    (h : g.Active content (x :: calls)) (hy : y ∈ x :: calls) :
    ReflTransGen (g.Calls content) x y := by
  induction calls generalizing x with
  | nil => rw [List.mem_singleton.mp hy]
  | cons z calls ih =>
    obtain ⟨hxz, h⟩ := List.isChain_cons_cons.mp h
    rcases List.mem_cons.mp hy with rfl | hy
    · exact .refl
    · exact .head hxz (ih h hy)

/-- Calls that are all different are no more than there are objects and positions for them. -/
theorem length_le_of_nodup {o : Object} {p : Int} (hp : p ≤ L)
    (ho : ∀ o', g.Reaches o o' → (g.node? o').isSome) {calls : List (Object × Int)}
    (h : g.Active content ((o, p) :: calls)) (hd : ((o, p) :: calls).Nodup) :
    calls.length + 1 ≤ {o' | g.Reaches o o'}.ncard * (L - p + 1).toNat := by
  classical
  have hfin : {o' | g.Reaches o o'}.Finite := by
    refine ((Finset.range g.size).finite_toSet.image Object.node).subset fun o' ho' => ?_
    obtain ⟨id, node, rfl, hn⟩ := node?_of_isSome (ho o' ho')
    exact ⟨id, Finset.mem_coe.mpr (Finset.mem_range.mpr (isSome_node?.mp (by rw [hn]; rfl))), rfl⟩
  have hsub : (((o, p) :: calls).toFinset : Set (Object × Int)) ⊆
      {o' | g.Reaches o o'} ×ˢ Set.Icc p L := by
    intro y hy
    rw [List.coe_toFinset] at hy
    exact bounds_of_reflTransGen hL (h.reflTransGen hy) hp
  have hcard : (Set.Icc p (L : Int)).ncard = (L - p + 1).toNat := by
    rw [Set.ncard_eq_toFinset_card', Set.toFinset_Icc, Int.card_Icc]
    congr 1
    omega
  have hle := Set.ncard_le_ncard hsub (hfin.prod (Set.finite_Icc p L))
  rwa [Set.ncard_coe_finset, List.toFinset_card_of_nodup hd, Set.ncard_prod, hcard] at hle

end

/-! ## Calls that are made again -/

/-- A call that is made again inside itself is made again and again. -/
theorem nested_of_loop {x y : Object × Int} (hx : ReflTransGen (g.Calls content) x y)
    (hy : TransGen (g.Calls content) y y) (depth : Nat) : g.Nested content depth x := by
  induction depth generalizing x with
  | zero => exact nested_zero x
  | succ depth ih =>
    rcases hx.cases_head with rfl | ⟨z, hxz, hz⟩
    · obtain ⟨z, hxz, hz⟩ := TransGen.head'_iff.mp hy
      exact nested_succ.mpr ⟨z, hxz, ih hz⟩
    · exact nested_succ.mpr ⟨z, hxz, ih hz⟩

/-- Where no call is made again inside itself, active calls are all different. -/
theorem Active.nodup {x : Object × Int} {calls : List (Object × Int)}
    (h : g.Active content (x :: calls))
    (hn : ∀ y, ReflTransGen (g.Calls content) x y → ¬ TransGen (g.Calls content) y y) :
    (x :: calls).Nodup := by
  have hp : (x :: calls).Pairwise (TransGen (g.Calls content)) :=
    List.isChain_iff_pairwise.mp (h.imp fun _ _ => .single)
  refine hp.imp_of_mem fun {y z} hy _ hyz he => ?_
  subst he
  exact hn y (h.reflTransGen hy) hyz

/-- Calls of an evaluation that ends are all different. -/
theorem nodup_of_endsIn {o : Object} {p : Int} {r : Outcome × Progress}
    (hr : EndsIn (g.evaluate content) o { position := p } r) {calls : List (Object × Int)}
    (h : g.Active content ((o, p) :: calls)) : ((o, p) :: calls).Nodup := by
  refine h.nodup fun y hy hl => ?_
  obtain ⟨hne, depth, rfl⟩ := hr
  exact hne (evaluate_givenUp_iff.mpr (nested_of_loop hy hl depth))

/-- How the calls that an evaluation makes inside each other decide on its end. -/
structure EndsByCalls (g : Graph) (content : Content) (L : Nat) (o : Object) (p : Int) : Prop where
  /-- To a depth it is given up exactly if that many calls are made inside the first one. -/
  givenUp_iff (depth : Nat) : (g.evaluate content depth o { position := p }).1 = .givenUp ↔
    ∃ calls, calls.length = depth ∧ g.Active content ((o, p) :: calls)
  /-- It ends exactly if no object is called at a position where a call of it is active. -/
  ends_iff : (∃ r, EndsIn (g.evaluate content) o { position := p } r) ↔
    ∀ calls, g.Active content ((o, p) :: calls) → ((o, p) :: calls).Nodup
  /-- If it ends, there is an object and a position for each of the calls inside each other. -/
  length_le {r : Outcome × Progress} : EndsIn (g.evaluate content) o { position := p } r →
    ∀ calls, g.Active content ((o, p) :: calls) →
      ((o, p) :: calls).length ≤ {o' | g.Reaches o o'}.ncard * (L - p + 1).toNat
  /-- If it ends, a repetition starts a round for each element that is left, and one more. -/
  rounds_le {r : Outcome × Progress} : EndsIn (g.evaluate content) o { position := p } r →
    ∀ calls, g.Active content ((o, p) :: calls) → ∀ o' q a, (o', q) ∈ (o, p) :: calls →
      g.parser? o' = some (.repetition a) → ∀ n j, g.Rounds content a n q j →
        (n + 1 : Int) ≤ L - q + 1

/-- Where only nodes are reached, calls decide on the end of an evaluation. -/
theorem endsByCalls_of_nodes {L : Nat} (hL : content.size? = some L) {o : Object} {p : Int}
    (hp : p ≤ L) (ho : ∀ o', g.Reaches o o' → (g.node? o').isSome) :
    g.EndsByCalls content L o p := by
  refine ⟨fun depth => evaluate_givenUp_iff, ⟨fun ⟨r, hr⟩ calls h => nodup_of_endsIn hr h, ?_⟩,
    fun hr calls h => length_le_of_nodup hL hp ho h (nodup_of_endsIn hr h), ?_⟩
  · intro h
    have hne : (g.evaluate content ({o' | g.Reaches o o'}.ncard * (L - p + 1).toNat) o
        { position := p }).1 ≠ .givenUp := by
      rw [Ne, evaluate_givenUp_iff]
      rintro ⟨calls, hl, hc⟩
      have := length_le_of_nodup hL hp ho hc (h calls hc)
      omega
    exact ⟨_, hne, _, rfl⟩
  · intro r _ calls h o' q a hm _ n j hn
    obtain ⟨-, -, hq⟩ := bounds_of_reflTransGen hL (h.reflTransGen hm) hp
    obtain ⟨hj, hjL⟩ := hn.bounds hL hq
    omega

/-- Letters up to the end, one by one: the only cycle passes a letter. -/
def letters : Graph where
  nodes := #[
    { parser := .alternation (.node 1) (.node 3) },
    { parser := .sequence [.node 2, .node 0] },
    { parser := .literal (.character 'a') (.character 'z') },
    { parser := .endOfInput }]

theorem letters_end :
    (Content.ofValue (.text "ab")).size? = some 2 ∧ (0 : Int) ≤ (2 : Nat) ∧
      (∀ o', letters.Reaches (.node 0) o' → (letters.node? o').isSome) ∧
      letters.EndsByCalls (.ofValue (.text "ab")) 2 (.node 0) 0 ∧
      (letters.parse (.node 0) (.ofValue (.text "ab")) 0).1 ≠ .givenUp := by
  have ho : ∀ o', letters.Reaches (.node 0) o' → (letters.node? o').isSome :=
    fun o' h => (walk_complete rfl h).2
  exact ⟨rfl, by decide, ho, endsByCalls_of_nodes rfl (by decide) ho, by decide⟩

end Graph

end ParserGraph
