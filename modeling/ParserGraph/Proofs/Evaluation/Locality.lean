import ParserGraph.Proofs.Evaluation.Limit

/-!
# What is ahead of an evaluation

What a cursor has still to read is a row of values (`Cursor.ahead?`). It does not tell whether these
are the characters of a text, bytes or the items of a list, nor how many others came before them.
A content offers this row from the position of the cursor on (`Cursor.Within.offers`), and an evaluation
sees no more of the content than that: positions only ever differ by how far they are from the start
(`Correspondence.ahead`). So cursors with the same row ahead of them are parsed with the same end,
and moved on by the same number of elements (`parse_of_ahead`).
-/

namespace ParserGraph

/-- The position is one of the content, or its end. -/
def Cursor.Within (c : Cursor) : Prop :=
  ∃ size, c.content.size? = some size ∧ 0 ≤ c.position ∧ c.position ≤ size

/-- The elements that are not read yet, whatever their source. -/
def Cursor.ahead? (c : Cursor) : Option (List Value) :=
  c.remaining.toOption.bind Value.items?

namespace Content

/-- From a position on there are these elements and no more. -/
structure Offers (content : Content) (i : Int) (vs : List Value) : Prop where
  size_eq : ∃ size : Nat, content.size? = some size ∧ size = i + vs.length
  read_eq {k : Nat} : k ≤ vs.length → content.read (i + k) = .ok vs[k]?

variable {content : Content} {i : Int} {vs : List Value} {k : Nat}

theorem offers_indexed {elements : Array Value} (h₀ : 0 ≤ i) (hi : i ≤ elements.size) :
    (indexed elements).Offers i (elements.toList.drop i.toNat) := by
  obtain ⟨n, rfl⟩ := Int.eq_ofNat_of_zero_le h₀
  have hlength : (elements.toList.drop n).length = elements.size - n := by
    rw [List.length_drop, Array.length_toList]
  refine ⟨⟨_, rfl, ?_⟩, fun {k} hk => ?_⟩
  · rw [Int.toNat_natCast, hlength]
    omega
  · rw [Int.toNat_natCast] at hk ⊢
    rw [hlength] at hk
    have hp : ((n : Int) + k).toNat = n + k := by omega
    rw [List.getElem?_drop, Array.getElem?_toList]
    simp only [read, hp]
    split
    · rw [Array.getElem?_eq_none (by omega)]
    · rw [if_pos (by omega)]

theorem Offers.atEnd_eq (h : content.Offers i vs) (k : Nat) :
    content.atEnd (i + k) = .ok (decide (k = vs.length)) := by
  obtain ⟨size, hs, hn⟩ := h.size_eq
  have hd : i + k = size ↔ k = vs.length := by omega
  simp [atEnd, hs, Fault.orElse, hd]

theorem Offers.remaining_eq (h : content.Offers i vs) (k : Nat) :
    content.remaining (i + k) = vs.length - k := by
  obtain ⟨size, hs, hn⟩ := h.size_eq
  simp only [remaining, hs, Option.getD_some]
  omega

end Content

namespace Cursor

variable {c : Cursor} {vs : List Value}

/-- Only sources whose elements are found by their position have a part that is not read yet. -/
theorem exists_indexed (h₀ : 0 ≤ c.position) (h : c.ahead? = some vs) :
    ∃ elements, c.content = .indexed elements ∧ vs = elements.toList.drop c.position.toNat := by
  obtain ⟨source, position⟩ := c
  have hstart {α : Type} (l : List α) :
      l.drop (start ⟨source, position⟩ l.length) = l.drop position.toNat := by
    rw [start, if_neg (Int.not_lt.mpr h₀), List.drop_eq_drop_iff]
    exact (Nat.min_assoc ..).trans (congrArg _ (Nat.min_self _))
  cases source with
  | text _ | bytes _ | list _ =>
    refine ⟨_, rfl, ?_⟩
    simp only [ahead?, remaining, hstart, Except.toOption, Option.bind_some, Value.items?,
      String.toList_ofList, Option.some.injEq] at h
    simp [← h]
  | _ => cases h

theorem Within.offers (hc : c.Within) (h : c.ahead? = some vs) : c.content.Offers c.position vs := by
  obtain ⟨size, hs, h₀, hle⟩ := hc
  obtain ⟨elements, he, rfl⟩ := exists_indexed h₀ h
  rw [he] at hs ⊢
  obtain rfl : elements.size = size := Option.some.inj hs
  exact Content.offers_indexed h₀ hle

end Cursor

/-- Contents that offer the same elements, each from a position of its own: states belong together
if they are equally far from there. -/
def Correspondence.ahead {left right : Content} {i j : Int} {vs : List Value}
    (hl : left.Offers i vs) (hr : right.Offers j vs) : Correspondence left right where
  objects o o' := o' = o
  states s s' := ∃ k ≤ vs.length,
    s.position = i + (k : Nat) ∧ s'.position = j + (k : Nat) ∧ s'.notes = s.notes
  faults f f' := f' = f
  faults_refl _ := rfl
  read := by
    rintro s s' ⟨k, hk, hs, hs', -⟩
    rw [hs, hs', hl.read_eq hk, hr.read_eq hk]
  atEnd := by
    rintro s s' ⟨k, -, hs, hs', -⟩
    rw [hs, hs', hl.atEnd_eq, hr.atEnd_eq]
  remaining := by
    rintro s s' ⟨k, -, hs, hs', -⟩
    rw [hs, hs', hl.remaining_eq, hr.remaining_eq]
  moveOn := by
    rintro s s' v ⟨k, hk, hs, hs', hn⟩ hv
    rw [hs, hl.read_eq hk, Except.ok.injEq, List.getElem?_eq_some_iff] at hv
    refine ⟨k + 1, hv.1, ?_, ?_, hn⟩ <;> simp only [Progress.moveTo] <;> omega
  moveTo := by
    rintro s s' t t' ⟨k, hk, hs, hs', -⟩ ⟨-, -, -, -, hn⟩
    exact ⟨k, hk, hs, hs', hn⟩
  addNote := by
    rintro s s' note ⟨k, hk, hs, hs', hn⟩
    cases note with
    | none => exact ⟨k, hk, hs, hs', hn⟩
    | some v => exact ⟨k, hk, hs, hs', congrArg (v :: ·) hn⟩
  position_eq := by
    rintro s s' t t' ⟨k, -, hs, hs', -⟩ ⟨m, -, ht, ht', -⟩
    omega

namespace Graph

theorem parse_agrees (g : Graph) (o : Object) {left right : Content} {i j : Int} {vs : List Value}
    (hl : left.Offers i vs) (hr : right.Offers j vs) :
    (Correspondence.ahead hl hr).Agrees (g.parse o left i) (g.parse o right j) := by
  have hd : g.depthLimit left i = g.depthLimit right j := by
    have hi := hl.remaining_eq 0
    have hj := hr.remaining_eq 0
    simp only [Int.natCast_zero, Int.add_zero] at hi hj
    simp only [depthLimit, hi, hj]
  have hg : g.Corresponds (Correspondence.ahead hl hr) g :=
    Correspondence.corresponds_self (fun _ _ => .rfl) g
  exact evaluate_agrees hg hd.le rfl ⟨0, Nat.zero_le _, by simp, by simp, rfl⟩

/-- A parse depends on the elements that are ahead of its cursor only: not on those before, not on
the position, and not on what kind of source the elements are from. -/
theorem parse_of_ahead (g : Graph) (o : Object) {c c' : Cursor} (hc : c.Within) (hc' : c'.Within)
    {vs : List Value} (h : c.ahead? = some vs) (h' : c'.ahead? = some vs) {out : Outcome}
    {s : Progress} (hp : g.parse o c.content c.position = (out, s)) :
    ∃ s', g.parse o c'.content c'.position = (out, s') ∧
      (out ≠ .givenUp →
        s'.position - c'.position = s.position - c.position ∧ s'.notes = s.notes) := by
  have ha := g.parse_agrees o (hc.offers h) (hc'.offers h')
  have ha' := g.parse_agrees o (hc'.offers h') (hc.offers h)
  rw [hp] at ha ha'
  generalize g.parse o c'.content c'.position = r at ha ha' ⊢
  cases ha with
  | givenUp =>
    -- Nothing is said of the other side here, but from there this one agrees with it.
    cases ha' with
    | givenUp => exact ⟨_, rfl, fun hn => absurd rfl hn⟩
  | matched v hs | mismatch hs =>
    obtain ⟨k, -, hs, hs', hn⟩ := hs
    exact ⟨_, rfl, fun _ => ⟨by omega, hn⟩⟩
  | raised hf hs =>
    obtain ⟨k, -, hs, hs', hn⟩ := hs
    obtain rfl := hf
    exact ⟨_, rfl, fun _ => ⟨by omega, hn⟩⟩

/-- The codes of digits, up to the end. -/
def codes : Graph where
  nodes := #[
    { parser := .sequence [.node 1, .node 3] },
    { parser := .repetition (.node 2) },
    { parser := .literal (.int 48) (.int 57) },
    { parser := .endOfInput }]

/-- Two bytes after another one. -/
def inBytes : Cursor where
  source := .bytes [120, 52, 50]
  position := 1

/-- The same two numbers in a list. -/
def inList : Cursor where
  source := .list [.int 52, .int 50]

theorem codes_of_ahead :
    inBytes.Within ∧ inList.Within ∧ inBytes.ahead? = some [.int 52, .int 50] ∧
      inList.ahead? = some [.int 52, .int 50] ∧
      ∃ v s s', codes.parse (.node 0) inBytes.content inBytes.position = (.matched v, s) ∧
        codes.parse (.node 0) inList.content inList.position = (.matched v, s') ∧
        s'.position - inList.position = s.position - inBytes.position := by
  have hc : inBytes.Within := ⟨3, rfl, by decide, by decide⟩
  have hc' : inList.Within := ⟨2, rfl, by decide, by decide⟩
  have hr : codes.parse (.node 0) inBytes.content inBytes.position = (.matched _, _) := rfl
  obtain ⟨s', hr', hs⟩ := codes.parse_of_ahead (.node 0) hc hc' rfl rfl hr
  exact ⟨hc, hc', rfl, rfl, _, _, s', hr, hr', (hs nofun).1⟩

end Graph

end ParserGraph
