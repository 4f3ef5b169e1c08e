import ParserGraph.Proofs.Evaluation.Positional

/-!
# Reading a text

The positions of a text that a parse goes through are those of its ends: what is left of a text
tells where the parse is (`place`). From there a literal of characters reads the next character if
there is one in its range.
-/

namespace ParserGraph

/-- The position in a text from which only `rest` is left. -/
def place (text : String) (rest : List Char) : Int :=
  text.toList.length - rest.length

theorem place_self (text : String) : place text text.toList = 0 := by
  simp [place]

theorem place_drop (text : String) {n : Nat} (h : n ≤ text.toList.length) :
    place text (text.toList.drop n) = n := by
  simp only [place, List.length_drop]
  omega

theorem place_append_lt (text : String) {cs : List Char} (h : cs ≠ []) (rest : List Char) :
    place text (cs ++ rest) < place text rest := by
  have := List.length_pos_iff.mpr h
  simp only [place, List.length_append]
  omega

theorem place_lt_cons (text : String) (c : Char) (rest : List Char) :
    place text (c :: rest) < place text rest :=
  place_append_lt text (List.cons_ne_nil c []) rest

theorem place_cons (text : String) (c : Char) (rest : List Char) :
    place text rest = place text (c :: rest) + 1 := by
  simp only [place, List.length_cons]
  omega

variable {text : String} {rest : List Char}

theorem Content.read_place (h : rest <:+ text.toList) :
    (Content.ofValue (.text text)).read (place text rest) = .ok (rest.head?.map .character) := by
  obtain ⟨before, h⟩ := h
  have hp : place text rest = before.length := by
    simp only [place, ← h, List.length_append]
    omega
  simp only [Content.ofValue, Content.read, hp, ← h, List.size_toArray, List.length_map]
  cases rest with
  | nil => simp
  | cons c rest =>
    rw [if_neg (by simp only [List.length_append, List.length_cons]; omega), if_pos (by omega)]
    simp

theorem Content.atEnd_place :
    (Content.ofValue (.text text)).atEnd (place text rest) = .ok rest.isEmpty := by
  have h : decide (place text rest = text.toList.length) = rest.isEmpty := by
    cases rest with
    | nil => simp [place]
    | cons c rest =>
      refine decide_eq_false ?_
      simp only [place, List.length_cons]
      omega
  rw [← h]
  simp [Content.ofValue, Content.atEnd, Content.size?, Fault.orElse]

/-- Texts of one character are ordered as their characters are. -/
theorem Value.precedes_character (a b : Char) :
    precedes false (.character a) (.character b) = .ok (decide (a ≤ b)) := by
  have h : a ≤ b ↔ a.toNat < b.toNat ∨ a.toNat = b.toNat := Nat.le_iff_lt_or_eq
  by_cases he : a.toNat = b.toNat <;> simp [character, precedes, numbersPrecede, h, he]

/-- A literal of characters, where a text goes on. -/
theorem Content.element_place_cons {lower upper c : Char} (h : c :: rest <:+ text.toList) :
    (Content.ofValue (.text text)).element (.character lower) (.character upper)
      (place text (c :: rest)) =
        if lower ≤ c ∧ c ≤ upper then .ok (.character c) (place text rest) else .fail := by
  have hf : (Value.character c).isFailure = false := rfl
  rw [place_cons text c rest]
  simp only [element, read_place h, List.head?_cons, Option.map_some, Value.between,
    Value.precedes_character]
  by_cases hl : lower ≤ c <;> by_cases hu : c ≤ upper <;> simp [hl, hu, hf]

/-- A literal, where a text ends. -/
theorem Content.element_place_nil {lower upper : Value} :
    (Content.ofValue (.text text)).element lower upper (place text []) = .fail := by
  simp only [element, read_place (List.nil_suffix), List.head?_nil, Option.map_none]

theorem Content.ending_place :
    (Content.ofValue (.text text)).ending (place text rest) =
      if rest.isEmpty then .ok .null (place text rest) else .fail := by
  simp only [ending, atEnd_place]
  cases rest <;> rfl

namespace Graph

variable {g : Graph} {o : Object} {lower upper : Char}

theorem reads_character (ho : g.parser? o = some (.literal (.character lower) (.character upper)))
    {c : Char} (h : c :: rest <:+ text.toList) (hc : lower ≤ c ∧ c ≤ upper) :
    g.Reads (.ofValue (.text text)) o (place text (c :: rest))
      (.ok (.character c) (place text rest)) := by
  have hr : g.Reads (.ofValue (.text text)) o (place text (c :: rest)) _ := .literal ho
  rwa [Content.element_place_cons h, if_pos hc] at hr

/-- A literal does not match at the end, nor at a character out of its range. -/
theorem reads_fail (ho : g.parser? o = some (.literal (.character lower) (.character upper)))
    (h : rest <:+ text.toList) (hc : ∀ c, rest.head? = some c → ¬(lower ≤ c ∧ c ≤ upper)) :
    g.Reads (.ofValue (.text text)) o (place text rest) .fail := by
  have hr : g.Reads (.ofValue (.text text)) o (place text rest) _ := .literal ho
  cases rest with
  | nil => rwa [Content.element_place_nil] at hr
  | cons c rest => rwa [Content.element_place_cons h, if_neg (hc c rfl)] at hr

/-- A literal of characters, again and again, reads a row of those in its range. -/
theorem readsRounds_characters
    (ho : g.parser? o = some (.literal (.character lower) (.character upper))) {cs : List Char}
    (h : cs ++ rest <:+ text.toList) (hcs : ∀ c ∈ cs, lower ≤ c ∧ c ≤ upper)
    (hrest : ∀ c, rest.head? = some c → ¬(lower ≤ c ∧ c ≤ upper)) :
    g.ReadsRounds (.ofValue (.text text)) o (place text (cs ++ rest))
      (.ok (cs.map .character) (place text rest)) := by
  induction cs with
  | nil => exact .last (reads_fail ho h hrest)
  | cons c cs ih =>
    obtain ⟨hc, hcs⟩ := List.forall_mem_cons.mp hcs
    have hmoved : place text (cs ++ rest) ≠ place text (c :: (cs ++ rest)) :=
      ne_of_gt (place_lt_cons text c (cs ++ rest))
    exact .more (reads_character ho h hc) hmoved (ih ((List.suffix_cons _ _).trans h) hcs)

theorem reads_same {c : Char} (ho : g.parser? o = some (.literal (.character c) (.character c)))
    (h : c :: rest <:+ text.toList) :
    g.Reads (.ofValue (.text text)) o (place text (c :: rest))
      (.ok (.character c) (place text rest)) :=
  reads_character ho h ⟨Char.le_refl c, Char.le_refl c⟩

theorem reads_fail_of_ne {c : Char}
    (ho : g.parser? o = some (.literal (.character c) (.character c))) (h : rest <:+ text.toList)
    (hc : rest.head? ≠ some c) : g.Reads (.ofValue (.text text)) o (place text rest) .fail := by
  refine reads_fail ho h fun c' hc' hs => hc ?_
  rw [hc', Char.le_antisymm hs.1 hs.2]

end Graph

end ParserGraph
