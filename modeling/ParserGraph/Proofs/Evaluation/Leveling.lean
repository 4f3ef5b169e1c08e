import ParserGraph.Proofs.Evaluation.Nesting

/-!
# Calls and levels

How deep calls go inside each other can depend on the content: on how far some level, of brackets
say, rises in it. A `Leveling` of a graph says by how much each object raises the level whenever it
matches (`Reads.rises`), and gives each object a rank. A call keeps to a smaller rank than the call
that makes it, except as far as the level has risen in between (`Calls.falls`). So active calls are
no more than what the rank of the first one and the highest level allow (`Active.length_le`), and an
evaluation to that depth is enough (`endsWithin_of_fits`).
-/

namespace ParserGraph

variable {α β : Type}

/-- A verdict raises a level, from a position on, by the given amount if it is a result. -/
def Verdict.Rises (level : Int → Int) (i amount : Int) : Verdict α → Prop
  | .ok _ j => level j = level i + amount
  | .fail | .error _ => True

theorem Verdict.Rises.map {level : Int → Int} {i amount : Int} {e : Verdict α}
    (h : e.Rises level i amount) (f : α → β) : (e.map f).Rises level i amount := by
  cases e <;> exact h

/-- A verdict from a position that another object has read up to. -/
theorem Verdict.Rises.after {level : Int → Int} {i j amount before : Int} {e : Verdict α}
    (h : e.Rises level j amount) (hj : level j = level i + before) :
    e.Rises level i (before + amount) := by
  cases e with
  | ok a k =>
    have hk : level k = level j + amount := h
    rw [Rises, hk, hj, Int.add_assoc]
  | fail | error => trivial

theorem Verdict.rises_ofExcept {level : Int → Int} {i j amount : Int}
    (h : level j = level i + amount) (r : Except Fault Value) :
    (ofExcept r j).Rises level i amount := by
  cases r with
  | error f => trivial
  | ok v =>
    simp only [ofExcept]
    split
    · trivial
    · exact h

/-- Objects in a row have ranks below a limit that rises with the level. -/
def RanksBelow (rise : Object → Int) (rank : Object → Nat) : Int → List Object → Prop
  | _, [] => True
  | limit, o :: os => rank o < limit ∧ RanksBelow rise rank (limit + rise o) os

/-- What an object with the parser raises the level by is what the objects that it runs do, and these
have smaller ranks. -/
def Parser.Levels (rise : Object → Int) (rank : Object → Nat) (o : Object) : Parser → Prop
  | .sequence os => rise o = (os.map rise).sum ∧ RanksBelow rise rank (rank o) os
  | .alternation a b => (rise a = rise o ∧ rank a < rank o) ∧ rise b = rise o ∧ rank b < rank o
  | .repetition a => (rise a = 0 ∧ rank a < rank o) ∧ rise o = 0
  | .map a _ => rise a = rise o ∧ rank a < rank o
  | .endOfInput => rise o = 0
  | .literal .. | .forward .. => True

instance decidableRanksBelow (rise : Object → Int) (rank : Object → Nat) :
    ∀ limit os, Decidable (RanksBelow rise rank limit os)
  | _, [] => isTrue trivial
  | limit, o :: os =>
    have := decidableRanksBelow rise rank (limit + rise o) os
    inferInstanceAs (Decidable (rank o < limit ∧ RanksBelow rise rank (limit + rise o) os))

instance (rise : Object → Int) (rank : Object → Nat) (o : Object) :
    ∀ p : Parser, Decidable (p.Levels rise rank o)
  | .sequence _ => instDecidableAnd
  | .alternation .. => instDecidableAnd
  | .repetition _ => instDecidableAnd
  | .map .. => instDecidableAnd
  | .endOfInput => Int.instDecidableEq (rise o) 0
  | .literal .. | .forward .. => isTrue trivial

/-- By how much each object of a graph raises a level, and ranks that fall from call to call. -/
structure Graph.Leveling (g : Graph) where
  rise : Object → Int
  rank : Object → Nat
  levels {o : Object} {p : Parser} : g.parser? o = some p → p.Levels rise rank o

/-- The levels of the positions in a content rise with the elements as a leveling has it. -/
def Graph.Leveling.Fits {g : Graph} (l : g.Leveling) (content : Content) (level : Int → Int) :
    Prop :=
  ∀ o lower upper, g.parser? o = some (.literal lower upper) → ∀ i, 0 ≤ i →
    (content.element lower upper i).Rises level i (l.rise o)

namespace Graph

variable {g : Graph} {content : Content} {l : g.Leveling} {level : Int → Int}

/-! ## What is read raises the level -/

mutual

theorem Reads.rises (hl : l.Fits content level) {o : Object} {i : Int} {e : Verdict Value}
    (h : g.Reads content o i e) (hi : 0 ≤ i) : e.Rises level i (l.rise o) := by
  match h with
  | .literal hp => exact hl _ _ _ hp i hi
  | .sequence hp hos =>
    rw [(l.levels hp).1]
    exact (ReadsInOrder.rises hl hos hi).map _
  | .first hp ha _ =>
    rw [← (l.levels hp).1.1]
    exact Reads.rises hl ha hi
  | .second hp _ hb =>
    rw [← (l.levels hp).2.1]
    exact Reads.rises hl hb hi
  | .repetition hp ha =>
    rw [(l.levels hp).2]
    exact (ReadsRounds.rises hl ha hi (l.levels hp).1.1).map _
  | .endOfInput hp =>
    rw [l.levels hp]
    unfold Content.ending
    split <;> simp [Verdict.Rises]
  | .map hp ha =>
    rw [← (l.levels hp).1]
    exact Verdict.rises_ofExcept (Reads.rises hl ha hi) _
  | .mapFail .. | .mapError .. | .forward _ | .noParser _ => trivial

theorem ReadsInOrder.rises (hl : l.Fits content level) {os : List Object} {i : Int}
    {e : Verdict (List Value)} (h : g.ReadsInOrder content os i e) (hi : 0 ≤ i) :
    e.Rises level i (os.map l.rise).sum := by
  match h with
  | .nil => simp [Verdict.Rises]
  | .cons ho hos =>
    have hrest := ReadsInOrder.rises hl hos (hi.trans ho.bounds.1)
    rw [List.map_cons, List.sum_cons]
    exact (hrest.after (Reads.rises hl ho hi)).map _
  | .fail _ | .error _ => trivial

theorem ReadsRounds.rises (hl : l.Fits content level) {o : Object} {i : Int}
    {e : Verdict (List Value)} (h : g.ReadsRounds content o i e) (hi : 0 ≤ i)
    (ho : l.rise o = 0) : e.Rises level i 0 := by
  match h with
  | .last _ => simp [Verdict.Rises]
  | .more ha _ hr =>
    have hrise : level _ = level i + 0 := ho ▸ Reads.rises hl ha hi
    exact ((ReadsRounds.rises hl hr (hi.trans ha.bounds.1) ho).after hrise).map _
  | .idle _ | .error _ => trivial

end

/-! ## Calls fall -/

theorem Turn.falls (hl : l.Fits content level) {os : List Object} {i : Int} {y : Object × Int}
    (h : g.Turn content os i y) (hi : 0 ≤ i) {limit : Int} (hb : RanksBelow l.rise l.rank limit os) :
    0 ≤ y.2 ∧ l.rank y.1 - level y.2 < limit - level i := by
  induction h generalizing limit with
  | head => exact ⟨hi, Int.sub_lt_sub_right hb.1 _⟩
  | tail ho _ ih =>
    have hj : level _ = level _ + l.rise _ := ho.rises hl hi
    obtain ⟨hy, hlt⟩ := ih (hi.trans ho.bounds.1) hb.2
    exact ⟨hy, by omega⟩

/-- Where a round leaves the level as it was, any number of them does. -/
theorem Rounds.level_eq (hl : l.Fits content level) {o : Object} {n : Nat} {i j : Int}
    (h : g.Rounds content o n i j) (hi : 0 ≤ i) (ho : l.rise o = 0) :
    0 ≤ j ∧ level j = level i := by
  induction h with
  | none => exact ⟨hi, rfl⟩
  | more hr _ _ ih =>
    have hj : level _ = level _ + l.rise o := hr.rises hl hi
    obtain ⟨hk, hlevel⟩ := ih (hi.trans hr.bounds.1)
    exact ⟨hk, by omega⟩

/-- A call has a smaller rank than the one that makes it, except as far as the level has risen. -/
theorem Calls.falls (hl : l.Fits content level) {x y : Object × Int} (h : g.Calls content x y)
    (hx : 0 ≤ x.2) : 0 ≤ y.2 ∧ l.rank y.1 - level y.2 < l.rank x.1 - level x.2 := by
  obtain ⟨o, i⟩ := x
  obtain ⟨p, hp, h⟩ := h
  have hlevels := l.levels hp
  have same {a : Object} (ha : l.rank a < l.rank o) :
      (l.rank a : Int) - level i < l.rank o - level i :=
    Int.sub_lt_sub_right (Int.ofNat_lt.mpr ha) _
  cases p with
  | literal | endOfInput | forward => exact h.elim
  | sequence os => exact h.falls hl hx hlevels.2
  | alternation a b =>
    rcases h with rfl | ⟨-, rfl⟩
    · exact ⟨hx, same hlevels.1.2⟩
    · exact ⟨hx, same hlevels.2.2⟩
  | repetition a =>
    obtain ⟨n, j, hr, rfl⟩ := h
    obtain ⟨hj, hlevel⟩ := hr.level_eq hl hx hlevels.1.1
    refine ⟨hj, ?_⟩
    simp only [hlevel]
    exact same hlevels.1.2
  | map a t =>
    obtain rfl := h
    exact ⟨hx, same hlevels.2⟩

/-- Active calls are no more than the rank of the first one and the highest level allow. -/
theorem Active.length_le (hl : l.Fits content level) {top : Int} (htop : ∀ i, 0 ≤ i → level i ≤ top)
    {x : Object × Int} (hx : 0 ≤ x.2) {calls : List (Object × Int)}
    (h : g.Active content (x :: calls)) : calls.length ≤ l.rank x.1 - level x.2 + top := by
  induction calls generalizing x with
  | nil =>
    have := htop x.2 hx
    simp only [List.length_nil]
    omega
  | cons y calls ih =>
    obtain ⟨hxy, h⟩ := List.isChain_cons_cons.mp h
    obtain ⟨hy, hlt⟩ := hxy.falls hl hx
    have hle := ih hy h
    rw [List.length_cons]
    push_cast
    omega

/-! ## Depths that are enough -/

/-- An object is evaluated from a position within a depth: no more calls than that are active at one
time, and no greater depth gives anything else. -/
structure EndsWithin (g : Graph) (content : Content) (o : Object) (p : Int) (limit : Nat) :
    Prop where
  length_le {calls : List (Object × Int)} : g.Active content ((o, p) :: calls) →
    ((o, p) :: calls).length ≤ limit
  ends : (g.evaluate content limit o { position := p }).1 ≠ .givenUp
  evaluate_eq {depth : Nat} : limit ≤ depth →
    g.evaluate content depth o { position := p } = g.evaluate content limit o { position := p }
  parse_eq : g.parse o content p = g.evaluate content limit o { position := p }

/-- The rank of an object and the highest level give a depth that is enough. -/
theorem endsWithin_of_fits (hl : l.Fits content level) {top : Int}
    (htop : ∀ i, 0 ≤ i → level i ≤ top) {o : Object} {p : Int} (hp : 0 ≤ p) {limit : Nat}
    (hlimit : l.rank o - level p + top < limit) : g.EndsWithin content o p limit := by
  have hlt {calls : List (Object × Int)} (h : g.Active content ((o, p) :: calls)) :
      calls.length < limit := by
    have hle : calls.length ≤ l.rank o - level p + top := h.length_le hl htop hp
    omega
  have hends : (g.evaluate content limit o { position := p }).1 ≠ .givenUp := by
    rw [Ne, evaluate_givenUp_iff]
    rintro ⟨calls, hlength, h⟩
    exact absurd hlength (hlt h).ne
  exact ⟨hlt, hends, fun hd => evaluate_mono g content hd hends,
    (parse_eq_iff hends).mpr ⟨hends, limit, rfl⟩⟩

end Graph

end ParserGraph
