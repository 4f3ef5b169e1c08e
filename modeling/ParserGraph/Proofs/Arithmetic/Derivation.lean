import Mathlib.Data.List.Basic

/-!
# Derivations of arithmetic texts

What the arithmetic grammar derives, as trees: an expression is a row of terms with plus signs
between them, a term a row of factors with times signs between them, and a factor a digit or an
expression in parentheses. A tree has a text, and the ordinary value of a sum of products.

The grammar is not ambiguous: a text belongs to one tree only (`Expression.text_injective`). A tree
even determines where its text ends in a longer one, if no sign follows that would continue it.
-/

namespace ParserGraph.Arithmetic

mutual

/-- Terms with plus signs between them. -/
inductive Expression
  | last (t : Term)
  | plus (t : Term) (rest : Expression)

/-- Factors with times signs between them. -/
inductive Term
  | last (f : Factor)
  | times (f : Factor) (rest : Term)

/-- A digit, or an expression in parentheses. -/
inductive Factor
  | digit (d : Fin 10)
  | parens (e : Expression)

end

/-- The character of a digit. -/
def digitChar (d : Fin 10) : Char :=
  Char.ofNat (0x30 + d)

mutual

def Expression.text : Expression → List Char
  | .last t => t.text
  | .plus t rest => t.text ++ '+' :: rest.text

def Term.text : Term → List Char
  | .last f => f.text
  | .times f rest => f.text ++ '*' :: rest.text

def Factor.text : Factor → List Char
  | .digit d => [digitChar d]
  | .parens e => '(' :: (e.text ++ [')'])

end

mutual

def Expression.value : Expression → Nat
  | .last t => t.value
  | .plus t rest => t.value + rest.value

def Term.value : Term → Nat
  | .last f => f.value
  | .times f rest => f.value * rest.value

def Factor.value : Factor → Nat
  | .digit d => d
  | .parens e => e.value

end

theorem Factor.text_ne_nil (f : Factor) : f.text ≠ [] := by
  cases f <;> simp [Factor.text]

theorem Term.text_ne_nil (t : Term) : t.text ≠ [] := by
  cases t with
  | last f => exact f.text_ne_nil
  | times f rest => simp [Term.text]

theorem digitChar_injective : Function.Injective digitChar := by
  unfold Function.Injective
  decide

theorem digitChar_ne (d : Fin 10) : digitChar d ≠ '(' := by
  revert d
  decide

theorem digitChar_mem (d : Fin 10) : '0' ≤ digitChar d ∧ digitChar d ≤ '9' := by
  revert d
  decide

/-- A character between the digits 0 and 9 is one of the digits. -/
theorem exists_digitChar {c : Char} (h : '0' ≤ c ∧ c ≤ '9') : ∃ d, c = digitChar d := by
  obtain ⟨hl, hu⟩ := h
  have hl : 0x30 ≤ c.toNat := hl
  have hu : c.toNat ≤ 0x39 := hu
  refine ⟨⟨c.toNat - 0x30, by omega⟩, ?_⟩
  rw [digitChar, show 0x30 + (c.toNat - 0x30) = c.toNat by omega, Char.ofNat_toNat]

/-! ## One tree for a text -/

mutual

theorem Expression.text_append_inj {e e' : Expression} {rest rest' : List Char}
    (h : e.text ++ rest = e'.text ++ rest')
    (hp : rest.head? ≠ some '+') (hp' : rest'.head? ≠ some '+')
    (ht : rest.head? ≠ some '*') (ht' : rest'.head? ≠ some '*') : e = e' ∧ rest = rest' := by
  match e, e' with
  | .last t, .last t' =>
    obtain ⟨rfl, hr⟩ := Term.text_append_inj h ht ht'
    exact ⟨rfl, hr⟩
  | .plus t e, .plus t' e' =>
    simp only [Expression.text, List.append_assoc, List.cons_append] at h
    obtain ⟨rfl, hr⟩ := Term.text_append_inj h (by simp) (by simp)
    obtain ⟨rfl, hr'⟩ := Expression.text_append_inj (List.cons.inj hr).2 hp hp' ht ht'
    exact ⟨rfl, hr'⟩
  | .last t, .plus t' e' =>
    simp only [Expression.text, List.append_assoc, List.cons_append] at h
    obtain ⟨-, rfl⟩ := Term.text_append_inj h ht (by simp)
    exact absurd rfl hp
  | .plus t e, .last t' =>
    simp only [Expression.text, List.append_assoc, List.cons_append] at h
    obtain ⟨-, rfl⟩ := Term.text_append_inj h (by simp) ht'
    exact absurd rfl hp'

theorem Term.text_append_inj {t t' : Term} {rest rest' : List Char}
    (h : t.text ++ rest = t'.text ++ rest')
    (ht : rest.head? ≠ some '*') (ht' : rest'.head? ≠ some '*') : t = t' ∧ rest = rest' := by
  match t, t' with
  | .last f, .last f' =>
    obtain ⟨rfl, hr⟩ := Factor.text_append_inj h
    exact ⟨rfl, hr⟩
  | .times f t, .times f' t' =>
    simp only [Term.text, List.append_assoc, List.cons_append] at h
    obtain ⟨rfl, hr⟩ := Factor.text_append_inj h
    obtain ⟨rfl, hr'⟩ := Term.text_append_inj (List.cons.inj hr).2 ht ht'
    exact ⟨rfl, hr'⟩
  | .last f, .times f' t' =>
    simp only [Term.text, List.append_assoc, List.cons_append] at h
    obtain ⟨-, rfl⟩ := Factor.text_append_inj h
    exact absurd rfl ht
  | .times f t, .last f' =>
    simp only [Term.text, List.append_assoc, List.cons_append] at h
    obtain ⟨-, rfl⟩ := Factor.text_append_inj h
    exact absurd rfl ht'

theorem Factor.text_append_inj {f f' : Factor} {rest rest' : List Char}
    (h : f.text ++ rest = f'.text ++ rest') : f = f' ∧ rest = rest' := by
  match f, f' with
  | .digit d, .digit d' =>
    obtain ⟨hd, hr⟩ := List.cons.inj h
    exact ⟨congrArg Factor.digit (digitChar_injective hd), hr⟩
  | .parens e, .parens e' =>
    simp only [Factor.text, List.cons_append, List.append_assoc, List.cons.injEq, true_and] at h
    obtain ⟨rfl, hr⟩ := Expression.text_append_inj h (by simp) (by simp) (by simp) (by simp)
    exact ⟨rfl, (List.cons.inj hr).2⟩
  | .digit d, .parens e' => exact absurd (List.cons.inj h).1 (digitChar_ne d)
  | .parens e, .digit d' => exact absurd (List.cons.inj h).1.symm (digitChar_ne d')

end

/-- The grammar is not ambiguous. -/
theorem Expression.text_injective : Function.Injective Expression.text := by
  intro e e' h
  have h : e.text ++ [] = e'.text ++ [] := by rw [h]
  exact (text_append_inj h (by simp) (by simp) (by simp) (by simp)).1

end ParserGraph.Arithmetic
