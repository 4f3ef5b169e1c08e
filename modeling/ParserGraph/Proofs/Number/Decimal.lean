import Mathlib.Data.List.DropRight
import Mathlib.Data.List.Induction
import ParserGraph.Value.Display

/-!
# Rows of decimal digits

A row of ASCII digits has nothing around its digits that a reader would take off, so as an integer
it denotes the number of its digits, unless there are too many of them (`integer?_digits`).

The text of a number has no leading zeros. So a row of digits is the text of its number after the
leading zeros are dropped, a zero for the number zero apart (`toDigits_ofDigitChars`). What can be
read can be written as well (`words_ofDigitChars`).
-/

namespace ParserGraph.Number

open Text

/-- A row of digits. -/
abbrev Digits (cs : List Char) : Prop :=
  ∀ c ∈ cs, c.isDigit = true

/-- What holds of the ten digits holds of each digit. -/
theorem forall_digit {P : Char → Prop} (h : ∀ d : Fin 10, P (Char.ofNat (0x30 + d))) {c : Char}
    (hc : c.isDigit = true) : P c := by
  obtain ⟨hl, hu⟩ := Char.isDigit_iff_toNat.mp hc
  have h0 : '0'.toNat = 0x30 := rfl
  have h9 : '9'.toNat = 0x39 := rfl
  have hlt : c.toNat - 0x30 < 10 := by omega
  have hd : Char.ofNat (0x30 + (c.toNat - 0x30)) = c := by
    rw [Nat.add_sub_cancel' (by omega), Char.ofNat_toNat]
  exact hd ▸ h ⟨_, hlt⟩

/-- A digit is nothing that a reader looks for in front of, behind and between digits, and it is
known by its number. -/
structure Plain (c : Char) : Prop where
  isBlank : isBlank c = false
  toAsciiDigit : toAsciiDigit c = c
  ne_minus : c ≠ '-'
  ne_plus : c ≠ '+'
  ne_underscore : c ≠ '_'
  digit? : digit? 10 c = some (c.toNat - 0x30)
  lt_ten : c.toNat - 0x30 < 10
  digitChar : Nat.digitChar (c.toNat - 0x30) = c
  eq_zero : c.toNat - 0x30 = 0 ↔ c = '0'

theorem plain_of_isDigit {c : Char} (hc : c.isDigit = true) : Plain c := by
  refine forall_digit (fun d => ?_) hc
  revert d
  exact fun
    | 0 | 1 | 2 | 3 | 4 | 5 | 6 | 7 | 8 | 9 => by constructor <;> decide

/-! ## Reading -/

variable {cs : List Char}

theorem dropWhile_isBlank (h : Digits cs) : cs.dropWhile isBlank = cs := by
  rw [List.dropWhile_eq_self_iff]
  intro hl
  rw [(plain_of_isDigit (h _ (List.getElem_mem hl))).isBlank]
  exact Bool.false_ne_true

theorem trim_digits (h : Digits cs) : trim cs = cs := by
  have hr : Digits cs.reverse := fun c hc => h c (List.mem_reverse.mp hc)
  rw [trim, dropWhile_isBlank h, dropWhile_isBlank hr, List.reverse_reverse]

theorem splitSign_digits (h : Digits cs) : splitSign cs = (false, cs) := by
  cases cs with
  | nil => rfl
  | cons c cs =>
    have hc := plain_of_isDigit (h c (List.mem_cons_self ..))
    unfold splitSign
    split
    · rename_i he
      exact absurd (List.cons.inj he).1 hc.ne_minus
    · rename_i he
      exact absurd (List.cons.inj he).1 hc.ne_plus
    · rfl

theorem singleUnderscores_digits (h : Digits cs) : singleUnderscores cs = true := by
  induction cs with
  | nil => rfl
  | cons a cs ih =>
    obtain ⟨ha, hcs⟩ := List.forall_mem_cons.mp h
    cases cs with
    | nil => rfl
    | cons b cs => simp [singleUnderscores, (plain_of_isDigit ha).ne_underscore, ih hcs]

theorem withoutUnderscores?_digits (h : Digits cs) : withoutUnderscores? cs = some cs := by
  have hne : ∀ c ∈ cs, c ≠ '_' := fun c hc => (plain_of_isDigit (h c hc)).ne_underscore
  have hhead : cs.head? ≠ some '_' := fun hc => hne _ (List.mem_of_mem_head? hc) rfl
  have hlast : cs.getLast? ≠ some '_' := fun hc => hne _ (List.mem_of_getLast? hc) rfl
  have hfilter : cs.filter (· ≠ '_') = cs := List.filter_eq_self.mpr (by simpa using hne)
  rw [withoutUnderscores?, if_pos ⟨hhead, hlast, singleUnderscores_digits h⟩, hfilter]

theorem mapM_digit? (h : Digits cs) :
    cs.mapM (digit? 10) = some (cs.map fun c => c.toNat - 0x30) := by
  induction cs with
  | nil => rfl
  | cons c cs ih =>
    obtain ⟨hc, hcs⟩ := List.forall_mem_cons.mp h
    rw [List.mapM_cons, (plain_of_isDigit hc).digit?, ih hcs]
    rfl

theorem ofDigits_map (cs : List Char) :
    ofDigits 10 (cs.map fun c => c.toNat - 0x30) = Nat.ofDigitChars 10 cs 0 := by
  rw [ofDigits, Nat.ofDigitChars_eq_foldl, List.foldl_map]
  simp only [Nat.mul_comm]
  rfl

/-- A row of digits denotes their number, unless it is empty or too long. -/
theorem integer?_digits (h : Digits cs) :
    integer? cs = if cs = [] ∨ maxDigits < cs.length then none
      else some ((Nat.ofDigitChars 10 cs 0 : Nat) : Int) := by
  have hascii : cs.map toAsciiDigit = cs := by
    rw [List.map_congr_left fun c hc => (plain_of_isDigit (h c hc)).toAsciiDigit, List.map_id']
  have hnumeral : numeral? 10 cs = if cs = [] ∨ maxDigits < cs.length then none
      else some (Nat.ofDigitChars 10 cs 0) := by
    simp [numeral?, withoutUnderscores?_digits h, mapM_digit? h, ofDigits_map]
  simp only [integer?, trim_digits h, hascii, splitSign_digits h, hnumeral]
  split <;> rfl

/-! ## Writing -/

/-- A row of digits without leading zeros; of zeros alone one is left. -/
def withoutLeadingZeros (cs : List Char) : List Char :=
  match cs.dropWhile (· = '0') with
  | [] => ['0']
  | rest => rest

theorem withoutLeadingZeros_of_ne_nil (h : cs.dropWhile (· = '0') ≠ []) :
    withoutLeadingZeros cs = cs.dropWhile (· = '0') := by
  unfold withoutLeadingZeros
  split
  · rename_i hn
    exact absurd hn h
  · rfl

/-- There are only zeros exactly if the number is zero. -/
theorem dropWhile_zero_eq_nil (h : Digits cs) :
    cs.dropWhile (· = '0') = [] ↔ Nat.ofDigitChars 10 cs 0 = 0 := by
  rw [List.dropWhile_eq_nil_iff]
  induction cs with
  | nil => simp
  | cons c cs ih =>
    obtain ⟨hc, hcs⟩ := List.forall_mem_cons.mp h
    have hvalue : Nat.ofDigitChars 10 (c :: cs) 0 =
        10 ^ cs.length * (c.toNat - 0x30) + Nat.ofDigitChars 10 cs 0 := by
      rw [Nat.ofDigitChars_cons, Nat.mul_zero, Nat.zero_add]
      exact Nat.ofDigitChars_eq_ofDigitChars_zero
    have hpow : 10 ^ cs.length ≠ 0 := Nat.ne_of_gt (Nat.pow_pos (by decide))
    rw [List.forall_mem_cons, ih hcs, hvalue, Nat.add_eq_zero_iff, Nat.mul_eq_zero,
      (plain_of_isDigit hc).eq_zero, decide_eq_true_iff, or_iff_right hpow]

/-- The text of a row's number is the row without leading zeros. -/
theorem toDigits_ofDigitChars (h : Digits cs) :
    Nat.toDigits 10 (Nat.ofDigitChars 10 cs 0) = withoutLeadingZeros cs := by
  induction cs using List.reverseRecOn with
  | nil => rfl
  | append_singleton cs c ih =>
    have hcs : Digits cs := fun c hc => h c (List.mem_append_left _ hc)
    have hc : c.isDigit = true := h c (List.mem_append_right _ (List.mem_singleton_self c))
    have hlt := (plain_of_isDigit hc).lt_ten
    have hdigit := (plain_of_isDigit hc).digitChar
    have hn : Nat.ofDigitChars 10 (cs ++ [c]) 0 =
        10 * Nat.ofDigitChars 10 cs 0 + (c.toNat - 0x30) := by
      rw [Nat.ofDigitChars_append, Nat.ofDigitChars_cons, Nat.ofDigitChars_nil]
      rfl
    rw [hn]
    by_cases hz : cs.dropWhile (· = '0') = []
    · -- Zeros alone: the last digit is left.
      have hdrop : (cs ++ [c]).dropWhile (· = '0') = [c].dropWhile (· = '0') := by
        rw [List.dropWhile_append, if_pos (by rw [hz]; rfl)]
      rw [(dropWhile_zero_eq_nil hcs).mp hz, Nat.mul_zero, Nat.zero_add,
        Nat.toDigits_of_lt_base hlt, hdigit, withoutLeadingZeros, hdrop]
      by_cases hc0 : c = '0' <;> simp [hc0]
    · -- The last digit follows the text of the number before it.
      have hm : Nat.ofDigitChars 10 cs 0 ≠ 0 := mt (dropWhile_zero_eq_nil hcs).mpr hz
      have hdrop : (cs ++ [c]).dropWhile (· = '0') = cs.dropWhile (· = '0') ++ [c] := by
        rw [List.dropWhile_append, if_neg (by rwa [List.isEmpty_iff])]
      have hne : (cs ++ [c]).dropWhile (· = '0') ≠ [] := by simp [hdrop]
      rw [Nat.toDigits_of_base_le (by omega) (by omega), Nat.mul_add_div (by omega),
        Nat.div_eq_of_lt hlt, Nat.add_zero, ih hcs, Nat.mul_add_mod, Nat.mod_eq_of_lt hlt, hdigit,
        withoutLeadingZeros_of_ne_nil hz, withoutLeadingZeros_of_ne_nil hne, hdrop]

theorem digits_toDigits (n : Nat) : Digits (Nat.toDigits 10 n) := fun _ =>
  Nat.isDigit_of_mem_toDigits (by decide) (by decide)

/-- Only the text of zero begins with a zero. -/
theorem head?_toDigits (n : Nat) :
    (Nat.toDigits 10 n).head? ≠ some '0' ∨ (Nat.toDigits 10 n).length = 1 := by
  -- As a row of digits, the text of a number is the text of its own number.
  have hcanonical := toDigits_ofDigitChars (digits_toDigits n)
  rw [Nat.ofDigitChars_ten_toDigits] at hcanonical
  by_cases hz : (Nat.toDigits 10 n).dropWhile (· = '0') = []
  · rw [withoutLeadingZeros, hz] at hcanonical
    exact .inr (by rw [hcanonical]; rfl)
  · rw [withoutLeadingZeros_of_ne_nil hz] at hcanonical
    rw [hcanonical]
    left
    intro h
    have := List.head?_dropWhile_not (· = '0') (Nat.toDigits 10 n)
    simp [h] at this

/-- A number of not too many digits is written in them. -/
theorem words_natCast {n : Nat} (h : (Nat.toDigits 10 n).length ≤ maxDigits) :
    Value.words (.int n) = .ok (String.ofList (Nat.toDigits 10 n)) := by
  have hwritable : Value.isWritable (.int n) := by
    simpa only [Value.isWritable, Int.natAbs_natCast, decide_eq_true_eq] using h
  rw [← Nat.toString_eq_ofList_toDigits, Value.words, Value.display, if_pos hwritable]
  · rfl
  · exact nofun

end ParserGraph.Number
