import ParserGraph.Proofs.Evaluation.Returning

/-!
# Groups of sequences and of alternations

The same row of objects can be read by one flat sequence or by sequences of sequences, and tried by
alternations that are nested to the left, to the right or in any other way. A `Grouping` is such a
nesting, and it has the row of its members; `chain` builds the flat one. Each nesting goes back to
other positions on the way; but a sequence reads whatever its row reads (`InSequences.alike`), with
results that are those of the row once they are flattened, and an alternation ends exactly as the
row does when it is tried in order (`InAlternations.endsIn_iff`). So groupings of one row end the
same, at the same position also after a mismatch (`regrouped_sameEnd`).
-/

namespace ParserGraph

/-- A row of objects in groups, groups of groups and so on. -/
inductive Grouping
  | single (o : Object)
  | group (parts : List Grouping)

namespace Grouping

mutual

/-- The objects in the groups, in order. -/
def members : Grouping → List Object
  | .single o => [o]
  | .group parts => membersOfAll parts

def membersOfAll : List Grouping → List Object
  | [] => []
  | t :: ts => t.members ++ membersOfAll ts

end

mutual

/-- The results of the members, in order, where a group has the list of its parts' results. -/
def flatten? : Grouping → Value → Option (List Value)
  | .single _, v => some [v]
  | .group parts, .list vs => flattenAll? parts vs
  | .group _, _ => none

def flattenAll? : List Grouping → List Value → Option (List Value)
  | [], [] => some []
  | t :: ts, v :: vs => do return (← t.flatten? v) ++ (← flattenAll? ts vs)
  | _, _ => none

end

end Grouping

open Grouping (membersOfAll flattenAll?)

mutual

/-- The groups of a grouping are sequences of their parts, the outermost one the given object. -/
inductive Graph.InSequences (g : Graph) : Object → Grouping → Prop
  | single (o : Object) : InSequences g o (.single o)
  | group {o : Object} {os : List Object} {ts : List Grouping} :
    g.parser? o = some (.sequence os) → AllInSequences g os ts → InSequences g o (.group ts)

inductive Graph.AllInSequences (g : Graph) : List Object → List Grouping → Prop
  | nil : AllInSequences g [] []
  | cons {o : Object} {os : List Object} {t : Grouping} {ts : List Grouping} :
    InSequences g o t → AllInSequences g os ts → AllInSequences g (o :: os) (t :: ts)

end

/-- The groups of a grouping are alternations between their two parts. -/
inductive Graph.InAlternations (g : Graph) : Object → Grouping → Prop
  | single (o : Object) : InAlternations g o (.single o)
  | group {o a b : Object} {t t' : Grouping} : g.parser? o = some (.alternation a b) →
    InAlternations g a t → InAlternations g b t' → InAlternations g o (.group [t, t'])

/-! ## Readings side by side -/

namespace Verdict

variable {α β γ δ α' β' γ' : Type}

/-- The same verdict, but for results that belong together. -/
inductive Rel (R : α → β → Prop) : Verdict α → Verdict β → Prop
  | ok {a : α} {b : β} (next : Int) : R a b → Rel R (.ok a next) (.ok b next)
  | fail : Rel R .fail .fail
  | error (f : Fault) : Rel R (.error f) (.error f)

/-- Whatever one reading ends in, the other ends in a related verdict. -/
def Refines (R : α → β → Prop) (P : Verdict α → Prop) (Q : Verdict β → Prop) : Prop :=
  ∀ e, P e → ∃ e', Q e' ∧ e.Rel R e'

/-- Whatever one of two readings ends in, the other ends in a related verdict. -/
def Alike (R : α → β → Prop) (P : Verdict α → Prop) (Q : Verdict β → Prop) : Prop :=
  Refines R P Q ∧ Refines (fun b a => R a b) Q P

/-- The reading of a start and, from the end of its result, of the rest. -/
def Follows (start : Verdict α → Prop) (rest : Int → Verdict β → Prop) (f : α → β → γ)
    (e : Verdict γ) : Prop :=
  (∃ a j e', start (.ok a j) ∧ rest j e' ∧ e = e'.map (f a)) ∨ start .fail ∧ e = .fail ∨
    ∃ x, start (.error x) ∧ e = .error x

theorem Rel.map {R : α → β → Prop} {S : γ → γ' → Prop} {e : Verdict α} {e' : Verdict β}
    (h : e.Rel R e') {f : α → γ} {f' : β → γ'} (hf : ∀ a b, R a b → S (f a) (f' b)) :
    (e.map f).Rel S (e'.map f') := by
  cases h with
  | ok next h => exact .ok next (hf _ _ h)
  | fail => exact .fail
  | error x => exact .error x

theorem map_id (e : Verdict α) : e.map id = e := by
  cases e <;> rfl

theorem Rel.mono {R S : α → β → Prop} {e : Verdict α} {e' : Verdict β} (h : e.Rel R e')
    (hrs : ∀ a b, R a b → S a b) : e.Rel S e' := by
  have hmap : (e.map id).Rel S (e'.map id) := h.map hrs
  rwa [map_id, map_id] at hmap

theorem Refines.follows {R : α → β → Prop} {R' : α' → β' → Prop} {S : γ → γ' → Prop}
    {P : Verdict α → Prop} {Q : Verdict β → Prop} {P' : Int → Verdict α' → Prop}
    {Q' : Int → Verdict β' → Prop} (h : Refines R P Q) (h' : ∀ j, Refines R' (P' j) (Q' j))
    {f : α → α' → γ} {f' : β → β' → γ'} (hf : ∀ a b a' b', R a b → R' a' b' → S (f a a') (f' b b')) :
    Refines S (Follows P P' f) (Follows Q Q' f') := by
  rintro _ (⟨a, j, e, ha, he, rfl⟩ | ⟨ha, rfl⟩ | ⟨x, ha, rfl⟩)
  · obtain ⟨_, hb, ⟨_, hab⟩⟩ := h _ ha
    obtain ⟨e', he', hr⟩ := h' j e he
    exact ⟨_, .inl ⟨_, j, e', hb, he', rfl⟩, hr.map fun a' b' => hf a _ a' b' hab⟩
  · obtain ⟨_, hb, ⟨⟩⟩ := h _ ha
    exact ⟨_, .inr (.inl ⟨hb, rfl⟩), .fail⟩
  · obtain ⟨_, hb, ⟨⟩⟩ := h _ ha
    exact ⟨_, .inr (.inr ⟨x, hb, rfl⟩), .error x⟩

theorem Alike.follows {R : α → β → Prop} {R' : α' → β' → Prop} {S : γ → γ' → Prop}
    {P : Verdict α → Prop} {Q : Verdict β → Prop} {P' : Int → Verdict α' → Prop}
    {Q' : Int → Verdict β' → Prop} (h : Alike R P Q) (h' : ∀ j, Alike R' (P' j) (Q' j))
    {f : α → α' → γ} {f' : β → β' → γ'} (hf : ∀ a b a' b', R a b → R' a' b' → S (f a a') (f' b b')) :
    Alike S (Follows P P' f) (Follows Q Q' f') :=
  ⟨h.1.follows (fun j => (h' j).1) hf,
    h.2.follows (fun j => (h' j).2) fun b a b' a' => hf a b a' b'⟩

theorem Refines.comp {R : α → β → Prop} {S : β → γ → Prop} {P : Verdict α → Prop}
    {Q : Verdict β → Prop} {T : Verdict γ → Prop} (h : Refines R P Q) (h' : Refines S Q T) :
    Refines (fun a c => ∃ b, R a b ∧ S b c) P T := by
  intro e he
  obtain ⟨e', he', hr⟩ := h e he
  obtain ⟨e'', he'', hs⟩ := h' e' he'
  refine ⟨e'', he'', ?_⟩
  cases hr with
  | ok j hab =>
    obtain ⟨_, hbc⟩ := hs
    exact .ok j ⟨_, hab, hbc⟩
  | fail =>
    obtain ⟨⟩ := hs
    exact .fail
  | error f =>
    obtain ⟨⟩ := hs
    exact .error f

theorem Alike.symm {R : α → β → Prop} {P : Verdict α → Prop} {Q : Verdict β → Prop}
    (h : Alike R P Q) : Alike (fun b a => R a b) Q P :=
  ⟨h.2, h.1⟩

theorem Alike.comp {R : α → β → Prop} {S : β → γ → Prop} {P : Verdict α → Prop}
    {Q : Verdict β → Prop} {T : Verdict γ → Prop} (h : Alike R P Q) (h' : Alike S Q T) :
    Alike (fun a c => ∃ b, R a b ∧ S b c) P T := by
  refine ⟨h.1.comp h'.1, fun e he => ?_⟩
  obtain ⟨e', he', hr⟩ := h'.2.comp h.2 e he
  refine ⟨e', he', hr.mono fun a c h => ?_⟩
  obtain ⟨b, hbc, hab⟩ := h
  exact ⟨b, hab, hbc⟩

/-- It does not matter where a reading of three parts is divided first. -/
theorem follows_assoc {P : Verdict α → Prop} {Q : Int → Verdict β → Prop}
    {Q' : Int → Verdict γ → Prop} {f : α → γ' → δ} {k : β → γ → γ'} {f' : α → β → α'}
    {k' : α' → γ → δ} (h : ∀ a b c, f a (k b c) = k' (f' a b) c) (e : Verdict δ) :
    Follows P (fun j => Follows (Q j) Q' k) f e ↔ Follows (Follows P Q f') Q' k' e := by
  have hmap (a : α) (b : β) (e : Verdict γ) : (e.map (k b)).map (f a) = e.map (k' (f' a b)) := by
    rw [map_map]
    exact congrArg (e.map ·) (funext (h a b))
  constructor
  · rintro (⟨a, j, _, ha, ⟨b, l, e, hb, he, rfl⟩ | ⟨hb, rfl⟩ | ⟨x, hb, rfl⟩, rfl⟩ | ⟨ha, rfl⟩ |
      ⟨x, ha, rfl⟩)
    · exact .inl ⟨_, l, e, .inl ⟨a, j, _, ha, hb, rfl⟩, he, hmap a b e⟩
    · exact .inr (.inl ⟨.inl ⟨a, j, _, ha, hb, rfl⟩, rfl⟩)
    · exact .inr (.inr ⟨x, .inl ⟨a, j, _, ha, hb, rfl⟩, rfl⟩)
    · exact .inr (.inl ⟨.inr (.inl ⟨ha, rfl⟩), rfl⟩)
    · exact .inr (.inr ⟨x, .inr (.inr ⟨x, ha, rfl⟩), rfl⟩)
  · rintro (⟨_, l, e, ⟨a, j, e', ha, hb, he'⟩ | ⟨-, ⟨⟩⟩ | ⟨_, -, ⟨⟩⟩, he, rfl⟩ |
      ⟨⟨a, j, e', ha, hb, he'⟩ | ⟨ha, -⟩ | ⟨_, -, ⟨⟩⟩, rfl⟩ |
      ⟨x, ⟨a, j, e', ha, hb, he'⟩ | ⟨-, ⟨⟩⟩ | ⟨_, ha, ⟨⟩⟩, rfl⟩)
    · cases e' <;> cases he'
      rename_i b
      exact .inl ⟨a, j, _, ha, .inl ⟨b, l, e, hb, he, rfl⟩, (hmap a b e).symm⟩
    · cases e' <;> cases he'
      exact .inl ⟨a, j, _, ha, .inr (.inl ⟨hb, rfl⟩), rfl⟩
    · exact .inr (.inl ⟨ha, rfl⟩)
    · cases e' <;> cases he'
      exact .inl ⟨a, j, _, ha, .inr (.inr ⟨x, hb, rfl⟩), rfl⟩
    · exact .inr (.inr ⟨x, ha, rfl⟩)

end Verdict

open Verdict (Alike Follows)

namespace Graph

variable {g : Graph} {content : Content}

/-! ## Chains -/

/-- The objects that a chain appends to: those of a sequence, or else the object by itself. -/
def parts (g : Graph) (o : Object) : List Object :=
  match g.parser? o with
  | some (.sequence os) => os
  | _ => [o]

/-- An object, then one after another of a row. -/
def chain (o : Object) (os : List Object) : Build Object :=
  os.foldlM (fun o that => do return .node (← andThen o that)) o

theorem andThen_eq {o : Object} (h : (g.parser? o).isSome) (that : Object) :
    andThen o that g = .ok (g.size, g.push (.sequence (g.parts o ++ [that]))) := by
  obtain ⟨p, hp⟩ := Option.isSome_iff_exists.mp h
  rw [andThen, operand_bind hp, parts, hp]
  cases p <;> rfl

theorem chain_cons {o that : Object} (h : (g.parser? o).isSome) (os : List Object) :
    chain o (that :: os) g =
      chain (.node g.size) os (g.push (.sequence (g.parts o ++ [that]))) := by
  rw [chain, List.foldlM_cons]
  show ((andThen o that g >>= fun r => .ok (Object.node r.1, r.2)) >>=
    fun r => chain r.1 os r.2) = _
  rw [andThen_eq h]
  rfl

theorem exists_chain {o : Object} {ps : List Object} (h : g.parser? o = some (.sequence ps))
    (os : List Object) : ∃ o' g', chain o os g = .ok (o', g') ∧
      g'.parser? o' = some (.sequence (ps ++ os)) := by
  induction os generalizing g o ps with
  | nil => exact ⟨o, g, rfl, by rwa [List.append_nil]⟩
  | cons that os ih =>
    have hps : g.parts o = ps := by rw [parts, h]
    rw [chain_cons (by rw [h]; rfl), hps, List.append_cons ps that os]
    exact ih (parser?_push_self g _)

theorem allInSequences_single (g : Graph) (os : List Object) :
    g.AllInSequences os (os.map .single) := by
  induction os with
  | nil => exact .nil
  | cons o os ih => exact .cons (.single o) ih

/-- A chain is the flat sequence. -/
theorem exists_chain_flat {o : Object} {os : List Object} (h : (g.parser? o).isSome)
    (hos : os ≠ []) : ∃ o' g', chain o os g = .ok (o', g') ∧
      g'.InSequences o' (.group ((g.parts o ++ os).map .single)) := by
  obtain ⟨that, os, rfl⟩ := List.exists_cons_of_ne_nil hos
  obtain ⟨o', g', hchain, hp⟩ := exists_chain (parser?_push_self g _) os
  rw [← chain_cons h, List.append_assoc] at *
  exact ⟨o', g', hchain, .group hp (allInSequences_single ..)⟩

/-! ## Rows in sequence -/

theorem readsInOrder_cons (o : Object) (os : List Object) (i : Int) :
    g.ReadsInOrder content (o :: os) i =
      Follows (g.Reads content o i) (g.ReadsInOrder content os) (· :: ·) := by
  funext e
  refine propext ⟨fun h => ?_, ?_⟩
  · cases h with
    | cons ho h => exact .inl ⟨_, _, _, ho, h, rfl⟩
    | fail ho => exact .inr (.inl ⟨ho, rfl⟩)
    | error ho => exact .inr (.inr ⟨_, ho, rfl⟩)
  · rintro (⟨v, j, e', ho, h, rfl⟩ | ⟨ho, rfl⟩ | ⟨x, ho, rfl⟩)
    · exact .cons ho h
    · exact .fail ho
    · exact .error ho

theorem readsInOrder_append (os os' : List Object) (i : Int) :
    g.ReadsInOrder content (os ++ os') i =
      Follows (g.ReadsInOrder content os i) (g.ReadsInOrder content os') (· ++ ·) := by
  induction os generalizing i with
  | nil =>
    funext e
    refine propext ⟨fun h => .inl ⟨[], i, e, .nil, h, e.map_id.symm⟩, ?_⟩
    rintro (⟨_, _, e', ⟨⟩, h, rfl⟩ | ⟨⟨⟩, -⟩ | ⟨_, ⟨⟩, -⟩)
    exact e'.map_id.symm ▸ h
  | cons o os ih =>
    funext e
    rw [List.cons_append, readsInOrder_cons, readsInOrder_cons, funext ih]
    refine propext (Verdict.follows_assoc ?_ e)
    exact fun v vs ws => rfl

mutual

/-- Sequences of sequences read what the row of their members reads. -/
theorem InSequences.alike {o : Object} {t : Grouping} (h : g.InSequences o t)
    (content : Content) (i : Int) :
    Alike (fun v vs => t.flatten? v = some vs) (g.Reads content o i)
      (g.ReadsInOrder content t.members i) := by
  match h with
  | .single _ =>
    refine ⟨fun e he => ?_, fun e he => ?_⟩
    · cases e with
      | ok v j => exact ⟨.ok [v] j, .cons he .nil, .ok j rfl⟩
      | fail => exact ⟨.fail, .fail he, .fail⟩
      | error x => exact ⟨.error x, .error he, .error x⟩
    · cases he with
      | cons ho hn => cases hn; exact ⟨_, ho, .ok _ rfl⟩
      | fail ho => exact ⟨_, ho, .fail⟩
      | error ho => exact ⟨_, ho, .error _⟩
  | @InSequences.group _ _ _ ts hp hos =>
    have hall := AllInSequences.alike hos content i
    refine ⟨fun e he => ?_, fun e he => ?_⟩
    · obtain ⟨e₁, h₁, rfl⟩ := (reads_sequence_iff hp).mp he
      obtain ⟨e', h', hr⟩ := hall.1 e₁ h₁
      exact ⟨e', h', e'.map_id ▸ hr.map fun _ _ => id⟩
    · obtain ⟨e₁, h₁, hr⟩ := hall.2 e he
      exact ⟨_, .sequence hp h₁, e.map_id ▸ hr.map fun _ _ => id⟩

theorem AllInSequences.alike {os : List Object} {ts : List Grouping}
    (h : g.AllInSequences os ts) (content : Content) (i : Int) :
    Alike (fun vs ws => flattenAll? ts vs = some ws) (g.ReadsInOrder content os i)
      (g.ReadsInOrder content (membersOfAll ts) i) := by
  match h with
  | .nil =>
    refine ⟨fun e he => ?_, fun e he => ?_⟩ <;> cases he
    all_goals exact ⟨_, .nil, .ok i rfl⟩
  | .cons ho hos =>
    rw [readsInOrder_cons, membersOfAll, readsInOrder_append]
    refine (InSequences.alike ho content i).follows (AllInSequences.alike hos content) ?_
    intro v vs ws ws' hv hws
    simp [flattenAll?, hv, hws]

end

/-! ## Rows of alternatives -/

/-- A row of objects, each tried from the same position if those before it do not match, ends as the
last of them that is tried. -/
inductive EndsFirst (g : Graph) (content : Content) :
    List Object → Progress → Outcome × Progress → Prop
  | last {o : Object} {s : Progress} {r : Outcome × Progress} :
    EndsIn (g.evaluate content) o s r → EndsFirst g content [o] s r
  | decided {o : Object} {os : List Object} {s : Progress} {r : Outcome × Progress} :
    EndsIn (g.evaluate content) o s r → r.1 ≠ .mismatch → EndsFirst g content (o :: os) s r
  | next {o : Object} {os : List Object} {s s' : Progress} {r : Outcome × Progress} :
    EndsIn (g.evaluate content) o s (.mismatch, s') →
    EndsFirst g content os (s'.moveTo s.position) r → EndsFirst g content (o :: os) s r

theorem endsIn_alternation_iff {o a b : Object} (hp : g.parser? o = some (.alternation a b))
    {s : Progress} {r : Outcome × Progress} :
    EndsIn (g.evaluate content) o s r ↔
      EndsIn (g.evaluate content) a s r ∧ r.1 ≠ .mismatch ∨
        ∃ s', EndsIn (g.evaluate content) a s (.mismatch, s') ∧
          EndsIn (g.evaluate content) b (s'.moveTo s.position) r := by
  constructor
  · rintro ⟨hr, depth, rfl⟩
    cases depth with
    | zero => exact absurd rfl hr
    | succ depth =>
      rw [evaluate_succ, hp] at hr ⊢
      simp only [Parser.attempt, Attempt.alternation] at hr ⊢
      rcases ha : g.evaluate content depth a s with ⟨out, s'⟩
      rw [ha] at hr
      cases out with
      | mismatch => exact .inr ⟨s', ⟨by simp, depth, ha⟩, hr, depth, rfl⟩
      | givenUp => exact absurd rfl hr
      | matched | raised => exact .inl ⟨⟨by simp, depth, ha⟩, by simp⟩
  · rintro (⟨⟨hr, depth, ha⟩, hm⟩ | ⟨s', ⟨-, depth, ha⟩, hr, depth', hb⟩)
    · refine ⟨hr, depth + 1, ?_⟩
      rw [evaluate_succ, hp]
      simp only [Parser.attempt, Attempt.alternation, ha]
      obtain ⟨out, s'⟩ := r
      cases out with
      | mismatch => exact absurd rfl hm
      | matched | raised | givenUp => rfl
    · have ha' : g.evaluate content (max depth depth') a s = (.mismatch, s') := by
        rw [g.evaluate_mono content (Nat.le_max_left ..) (by simp [ha]), ha]
      have hb' : g.evaluate content (max depth depth') b (s'.moveTo s.position) = r := by
        rw [g.evaluate_mono content (Nat.le_max_right ..) (by rwa [hb]), hb]
      refine ⟨hr, max depth depth' + 1, ?_⟩
      rw [evaluate_succ, hp]
      simp only [Parser.attempt, Attempt.alternation, ha', hb']

theorem endsFirst_append_iff {os os' : List Object} (hos : os ≠ []) (hos' : os' ≠ [])
    {s : Progress} {r : Outcome × Progress} :
    g.EndsFirst content (os ++ os') s r ↔
      g.EndsFirst content os s r ∧ r.1 ≠ .mismatch ∨
        ∃ s', g.EndsFirst content os s (.mismatch, s') ∧
          g.EndsFirst content os' (s'.moveTo s.position) r := by
  constructor
  · intro h
    induction os generalizing s with
    | nil => exact absurd rfl hos
    | cons o os ih =>
      rw [List.cons_append] at h
      generalize hrow : os ++ os' = row at h
      cases h with
      | last => exact absurd (List.append_eq_nil_iff.mp hrow).2 hos'
      | decided ho hm => exact .inl ⟨.decided ho hm, hm⟩
      | @next _ _ _ s' _ ho h =>
        subst hrow
        cases os with
        | nil => exact .inr ⟨s', .last ho, h⟩
        | cons o' os =>
          rcases ih (List.cons_ne_nil o' os) h with ⟨h, hm⟩ | ⟨s'', h, h'⟩
          · exact .inl ⟨.next ho h, hm⟩
          · exact .inr ⟨s'', .next ho h, h'⟩
  · clear hos
    rintro (⟨h, hm⟩ | ⟨s', h, h'⟩)
    · induction h with
      | last ho | decided ho _ => exact .decided ho hm
      | next ho _ ih => exact .next ho (ih hm)
    · generalize hr : (Outcome.mismatch, s') = r' at h
      induction h with
      | last ho =>
        subst hr
        exact .next ho h'
      | decided ho hm =>
        subst hr
        exact absurd rfl hm
      | next ho _ ih => exact .next ho (ih h' hr)

theorem InAlternations.members_ne_nil {o : Object} {t : Grouping} (h : g.InAlternations o t) :
    t.members ≠ [] := by
  cases h with
  | single o => exact List.cons_ne_nil o []
  | group _ ha _ => exact List.append_ne_nil_of_left_ne_nil ha.members_ne_nil _

/-- Alternations of alternations end as the row of their members does. -/
theorem InAlternations.endsIn_iff {o : Object} {t : Grouping} (h : g.InAlternations o t)
    {s : Progress} {r : Outcome × Progress} :
    EndsIn (g.evaluate content) o s r ↔ g.EndsFirst content t.members s r := by
  induction h generalizing s r with
  | single o =>
    refine ⟨.last, fun h => ?_⟩
    cases h with
    | last h | decided h _ => exact h
    | next _ h => cases h
  | @group o a b t t' hp ha hb iha ihb =>
    have hrow : (Grouping.group [t, t']).members = t.members ++ t'.members := by
      simp [Grouping.members, membersOfAll]
    rw [endsIn_alternation_iff hp, hrow,
      endsFirst_append_iff ha.members_ne_nil hb.members_ne_nil]
    simp only [iha, ihb]

/-! ## Parses -/

/-- Two parses end in the same way and, if they return, at the same position, with results that
belong together. -/
inductive SameEnd (results : Value → Value → Prop) :
    Outcome × Progress → Outcome × Progress → Prop
  | matched {v v' : Value} {s s' : Progress} (hv : results v v') (hs : s'.position = s.position) :
    SameEnd results (.matched v, s) (.matched v', s')
  | mismatch {s s' : Progress} (hs : s'.position = s.position) :
    SameEnd results (.mismatch, s) (.mismatch, s')
  | raised (f : Fault) (s s' : Progress) : SameEnd results (.raised f, s) (.raised f, s')
  | givenUp (s s' : Progress) : SameEnd results (.givenUp, s) (.givenUp, s')

theorem SameEnd.refl (r : Outcome × Progress) : SameEnd (· = ·) r r := by
  rcases r with ⟨v | _ | f | _, s⟩
  · exact .matched rfl rfl
  · exact .mismatch rfl
  · exact .raised f s s
  · exact .givenUp s s

/-- The outermost sequence goes back to the start, wherever those within went back to. -/
theorem InSequences.goesBack {o : Object} {ts : List Grouping} (h : g.InSequences o (.group ts))
    (i : Int) : g.GoesBack content o i := by
  cases h with
  | group hp _ => exact goesBack_sequence hp i

/-- Readings that are alike, of objects that go back if they do not match, are those of parses that
end the same. -/
theorem sameEnd_of_alike {R : Value → Value → Prop} {o o' : Object} {i : Int}
    (h : Alike R (g.Reads content o i) (g.Reads content o' i)) (hb : g.GoesBack content o i)
    (hb' : g.GoesBack content o' i) :
    SameEnd R (g.parse o content i) (g.parse o' content i) := by
  by_cases hr : ∃ e, g.Reads content o i e
  · obtain ⟨e, he⟩ := hr
    obtain ⟨e', he', hrel⟩ := h.1 e he
    cases hrel with
    | ok j hv =>
      obtain ⟨s, hs, hj⟩ := eq_matched_of_ofRun? (ofRun?_parse_iff.mpr he)
      obtain ⟨s', hs', hj'⟩ := eq_matched_of_ofRun? (ofRun?_parse_iff.mpr he')
      rw [hs, hs']
      exact .matched hv (hj'.trans hj.symm)
    | fail =>
      obtain ⟨s, hs, hj⟩ := hb.parse he
      obtain ⟨s', hs', hj'⟩ := hb'.parse he'
      rw [hs, hs']
      exact .mismatch (hj'.trans hj.symm)
    | error f =>
      obtain ⟨s, hs⟩ := eq_raised_of_ofRun? (ofRun?_parse_iff.mpr he)
      obtain ⟨s', hs'⟩ := eq_raised_of_ofRun? (ofRun?_parse_iff.mpr he')
      rw [hs, hs']
      exact .raised f s s'
  · have hr' : ∀ e, ¬ g.Reads content o' i e := fun e he =>
      hr ((h.2 e he).imp fun _ => And.left)
    obtain ⟨s, hs⟩ := parse_givenUp_of_not_reads (not_exists.mp hr)
    obtain ⟨s', hs'⟩ := parse_givenUp_of_not_reads hr'
    rw [hs, hs']
    exact .givenUp s s'

theorem parse_sequences_sameEnd {o o' : Object} {ts ts' : List Grouping}
    (h : g.InSequences o (.group ts)) (h' : g.InSequences o' (.group ts'))
    (hm : (Grouping.group ts).members = (Grouping.group ts').members) (i : Int) :
    SameEnd (fun v v' => ∃ vs, (Grouping.group ts).flatten? v = some vs ∧
      (Grouping.group ts').flatten? v' = some vs) (g.parse o content i) (g.parse o' content i) := by
  have ha := h.alike content i
  have ha' := h'.alike content i
  rw [← hm] at ha'
  exact sameEnd_of_alike (ha.comp ha'.symm) (h.goesBack i) (h'.goesBack i)

theorem parse_alternations_sameEnd {o o' : Object} {t t' : Grouping} (h : g.InAlternations o t)
    (h' : g.InAlternations o' t') (hm : t.members = t'.members) (i : Int) :
    SameEnd (· = ·) (g.parse o content i) (g.parse o' content i) := by
  have hiff (r : Outcome × Progress) : EndsIn (g.evaluate content) o { position := i } r ↔
      EndsIn (g.evaluate content) o' { position := i } r := by
    rw [h.endsIn_iff, h'.endsIn_iff, hm]
  by_cases hn : (g.parse o content i).1 = .givenUp
  · have hn' : (g.parse o' content i).1 = .givenUp :=
      parse_givenUp_iff.mpr fun r hr => parse_givenUp_iff.mp hn r ((hiff r).mpr hr)
    rw [show g.parse o content i = (.givenUp, _) from Prod.ext hn rfl,
      show g.parse o' content i = (.givenUp, _) from Prod.ext hn' rfl]
    exact .givenUp _ _
  · have hr := (parse_eq_iff hn).mpr ((hiff _).mp ((parse_eq_iff hn).mp rfl))
    rw [hr]
    exact .refl _

/-- A chain is the flat sequence of its row, and all sequences of sequences over one row end the
same, as do all alternations of alternations. -/
theorem regrouped_sameEnd :
    (∀ (g : Graph) (o : Object) (os : List Object), (g.parser? o).isSome → os ≠ [] →
      ∃ o' g', chain o os g = .ok (o', g') ∧
        g'.InSequences o' (.group ((g.parts o ++ os).map .single))) ∧
    (∀ (g : Graph) (o o' : Object) (ts ts' : List Grouping), g.InSequences o (.group ts) →
      g.InSequences o' (.group ts') → membersOfAll ts = membersOfAll ts' →
      ∀ (content : Content) (i : Int),
        SameEnd (fun v v' => ∃ vs, (Grouping.group ts).flatten? v = some vs ∧
          (Grouping.group ts').flatten? v' = some vs) (g.parse o content i) (g.parse o' content i)) ∧
    ∀ (g : Graph) (o o' : Object) (t t' : Grouping), g.InAlternations o t →
      g.InAlternations o' t' → t.members = t'.members → ∀ (content : Content) (i : Int),
        SameEnd (· = ·) (g.parse o content i) (g.parse o' content i) :=
  ⟨fun _ _ _ h hos => exists_chain_flat h hos,
    fun _ _ _ _ _ h h' hm _ i => parse_sequences_sameEnd h h' hm i,
    fun _ _ _ _ _ h h' hm _ i => parse_alternations_sameEnd h h' hm i⟩

/-- Three letters, in a row and one of them, each in two groupings. -/
def abc : Graph where
  nodes := #[
    { parser := .literal (.character 'a') (.character 'a') },
    { parser := .literal (.character 'b') (.character 'b') },
    { parser := .literal (.character 'c') (.character 'c') },
    { parser := .sequence [.node 0, .node 1, .node 2] },
    { parser := .sequence [.node 1, .node 2] },
    { parser := .sequence [.node 0, .node 4] },
    { parser := .alternation (.node 0) (.node 1) },
    { parser := .alternation (.node 6) (.node 2) },
    { parser := .alternation (.node 1) (.node 2) },
    { parser := .alternation (.node 0) (.node 8) }]

/-- The row without groups in it. -/
def abc.flat : Grouping :=
  .group [.single (.node 0), .single (.node 1), .single (.node 2)]

def abc.toTheLeft : Grouping :=
  .group [.group [.single (.node 0), .single (.node 1)], .single (.node 2)]

def abc.toTheRight : Grouping :=
  .group [.single (.node 0), .group [.single (.node 1), .single (.node 2)]]

theorem abc_regrouped :
    ((abc.parser? (.node 0)).isSome ∧ [Object.node 1, .node 2] ≠ [] ∧
      ∃ o' g', chain (.node 0) [.node 1, .node 2] abc = .ok (o', g') ∧
        g'.InSequences o' abc.flat) ∧
    (abc.InSequences (.node 3) abc.flat ∧
      abc.InSequences (.node 5) abc.toTheRight ∧
      abc.flat.members = abc.toTheRight.members ∧
      ∃ s s', abc.parse (.node 3) (.ofValue (.text "abx")) 0 = (.mismatch, s) ∧
        abc.parse (.node 5) (.ofValue (.text "abx")) 0 = (.mismatch, s') ∧
        s'.position = s.position) ∧
    abc.InAlternations (.node 7) abc.toTheLeft ∧
      abc.InAlternations (.node 9) abc.toTheRight ∧
      abc.toTheLeft.members = abc.toTheRight.members ∧
      SameEnd (· = ·) (abc.parse (.node 7) (.ofValue (.text "c")) 0)
        (abc.parse (.node 9) (.ofValue (.text "c")) 0) := by
  have hflat : abc.InSequences (.node 3) abc.flat :=
    .group rfl (allInSequences_single abc [.node 0, .node 1, .node 2])
  have hnested : abc.InSequences (.node 5) abc.toTheRight :=
    .group rfl (.cons (.single _) (.cons
      (.group rfl (allInSequences_single abc [.node 1, .node 2])) .nil))
  have hleft : abc.InAlternations (.node 7) abc.toTheLeft :=
    .group rfl (.group rfl (.single _) (.single _)) (.single _)
  have hright : abc.InAlternations (.node 9) abc.toTheRight :=
    .group rfl (.single _) (.group rfl (.single _) (.single _))
  have hrow := regrouped_sameEnd.2.1 abc _ _ _ _ hflat hnested rfl (.ofValue (.text "abx")) 0
  refine ⟨⟨rfl, List.cons_ne_nil _ _, regrouped_sameEnd.1 abc _ _ rfl (List.cons_ne_nil _ _)⟩,
    ⟨hflat, hnested, rfl, ?_⟩, hleft, hright, rfl,
    regrouped_sameEnd.2.2 abc _ _ _ _ hleft hright rfl _ 0⟩
  obtain ⟨s, hs⟩ : ∃ s, abc.parse (.node 3) (.ofValue (.text "abx")) 0 = (.mismatch, s) :=
    ⟨_, rfl⟩
  rw [hs] at hrow ⊢
  cases h : abc.parse (.node 5) (.ofValue (.text "abx")) 0
  rw [h] at hrow
  cases hrow with
  | mismatch hp => exact ⟨s, _, rfl, rfl, hp⟩

end Graph

end ParserGraph
