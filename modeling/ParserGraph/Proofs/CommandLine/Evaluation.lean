import Mathlib.Data.List.Forall2
import Mathlib.Data.List.TakeWhile
import Mathlib.Data.Nat.Digits.Defs
import ParserGraph.CommandLine.Packages
import ParserGraph.Proofs.Arithmetic.Parsing
import ParserGraph.Proofs.Number.Decimal

/-!
# Evaluating arguments

Arguments without a hyphen in front are taken as they are, by a command that takes several
(`Reader.read_several`) and by the program, whose first one chooses the command
(`Reader.read_command`). So the `eval` command gets its expressions in their order, and with the
grammar that is meant if none is named (`readSettings_eval`).

From then on it matters only that the language reports on every text: no report ends the program,
each prints its line, and whether all of them match is known at the end (`transcript_reportAll`).
For the arithmetic grammar the report on a text is known from its derivations (`exists_report`), and
with it what the program prints and its exit code (`transcript_eval`). All this holds for any
terminal, whatever texts select its colours.
-/

namespace ParserGraph.CommandLine

/-! ## Reading arguments -/

/-- A text that does not begin like an option. -/
abbrev Unhyphened (text : String) : Prop :=
  text.toList.head? ≠ some '-'

namespace Reader

variable {σ : Type} {r : Reader σ} {texts : List String}

/-- Texts that can be nothing but arguments. -/
def items (σ : Type) (texts : List String) : List (Item σ) :=
  texts.map (⟨·, .argument⟩)

theorem texts_items (texts : List String) : (items σ texts).map (·.text) = texts := by
  rw [items, List.map_map]
  exact List.map_id texts

theorem markAll_of_unhyphened (h : ∀ text ∈ texts, Unhyphened text) :
    r.markAll texts = .ok (items σ texts) := by
  induction texts with
  | nil => rfl
  | cons text texts ih =>
    obtain ⟨ht, h⟩ := List.forall_mem_cons.mp h
    have hmark : r.mark text = .ok .argument := if_pos ht
    have hne : text ≠ "--" := by
      rintro rfl
      exact ht rfl
    rw [markAll, hmark, ih h]
    · rfl
    · exact hne

/-- Arguments alone are taken together. -/
theorem splitPositional_items (hr : r.positional ≠ .nothing) (hne : texts ≠ []) :
    r.splitPositional (items σ texts) = some (items σ texts, []) := by
  obtain ⟨text, rest, rfl⟩ := List.exists_cons_of_ne_nil hne
  have hoption : ∀ item ∈ items σ (text :: rest), (!isOption item) = true := by
    intro item hitem
    obtain ⟨t, -, rfl⟩ := List.mem_map.mp hitem
    rfl
  have htake := List.takeWhile_eq_self_iff.mpr hoption
  have hdrop := List.dropWhile_eq_nil_iff.mpr hoption
  have hstart : ((items σ (text :: rest)).dropWhile isSeparator).head?.any isArgument = true :=
    rfl
  unfold splitPositional
  rw [hstart]
  cases hp : r.positional with
  | nothing => exact absurd hp hr
  | several name apply => rw [htake, hdrop]
  | command choices apply => rfl

theorem readItems_nil (steps : Nat) (p : Progress σ) : r.readItems steps [] p = .ok p := by
  cases steps <;> rfl

/-- Arguments alone are read in one step. -/
theorem readItems_items (hr : r.positional ≠ .nothing) (hne : texts ≠ []) (steps : Nat)
    (settings : σ) :
    r.readItems (steps + 1) (items σ texts) { settings } =
      (r.readPositional texts settings).map fun settings => { settings, expecting := false } := by
  have hsplit := splitPositional_items (r := r) hr hne
  obtain ⟨text, rest, rfl⟩ := List.exists_cons_of_ne_nil hne
  have htexts := texts_items (σ := σ) (text :: rest)
  rw [items, List.map_cons] at hsplit htexts ⊢
  simp only [readItems, if_true, hsplit, htexts]
  cases r.readPositional (text :: rest) settings with
  | error stop => rfl
  | ok settings => exact readItems_nil steps _

/-- A command that takes several arguments takes texts without hyphens as they are. -/
theorem read_several {name : String} {apply : List String → σ → σ}
    (hr : r.positional = .several name apply) (hne : texts ≠ [])
    (h : ∀ text ∈ texts, Unhyphened text) (settings : σ) :
    r.read texts settings = .ok (apply texts settings, []) := by
  have herase : texts.erase "--" = texts := List.erase_of_not_mem fun hmem => h _ hmem rfl
  have hread : r.readPositional texts settings = .ok (apply texts settings) := by
    unfold readPositional
    rw [hr]
    simp only [herase]
  have hitems := readItems_items (r := r) (by rw [hr]; exact nofun) hne (items σ texts).length
    settings
  rw [hread] at hitems
  simp only [read, markAll_of_unhyphened h, hr, hitems, Bind.bind, Except.bind, Except.map]
  rfl

/-- A command and its arguments are read by what the program does with that command. -/
theorem read_command {choices : List String} {apply : String → List String → σ → Except Stop σ}
    {command : String} (hr : r.positional = .command choices apply) (hc : command ∈ choices)
    (h : ∀ text ∈ command :: texts, Unhyphened text) (settings : σ) :
    r.read (command :: texts) settings = (apply command texts settings).map (·, []) := by
  have hread : r.readPositional (command :: texts) settings = apply command texts settings := by
    unfold readPositional
    rw [hr]
    exact if_pos (List.contains_iff_mem.mpr hc)
  have hitems := readItems_items (r := r) (by rw [hr]; exact nofun) (List.cons_ne_nil command texts)
    (items σ (command :: texts)).length settings
  rw [hread] at hitems
  simp only [read, markAll_of_unhyphened h, hr, hitems, Bind.bind, Except.bind]
  cases apply command texts settings <;> rfl

end Reader

variable {texts : List String}

/-- The expressions of the `eval` command are its arguments. -/
theorem readSettings_eval (hne : texts ≠ []) (h : ∀ text ∈ texts, Unhyphened text) :
    readSettings ("eval" :: texts) =
      .ok { request := some (.eval (some "expression") texts) } := by
  have heval : evalReader.read texts {} = .ok ({ expressions := texts }, []) :=
    Reader.read_several (r := evalReader) rfl hne h { }
  have hmain : mainReader.read ("eval" :: texts) {} = (readCommand "eval" texts {}).map (·, []) :=
    Reader.read_command (r := mainReader) rfl (by decide)
      (List.forall_mem_cons.mpr ⟨by decide, h⟩) { }
  have hcommand : readCommand "eval" texts {} =
      .ok { request := some (.eval (some "expression") texts) } := by
    simp only [readCommand, heval]
    rfl
  rw [hcommand] at hmain
  rw [readSettings, hmain]
  rfl

/-! ## Running programs -/

/-- To log changes nothing but the complaints. -/
theorem transcript_log (w : World) (t : Terminal) (verbose : Bool) (records : List Log.Record)
    (next : Program) :
    ∃ complaints, (Program.log t verbose records next).transcript w =
      { next.transcript w with complaints } := by
  unfold Program.log
  dsimp only
  generalize records.filter _ = wanted
  induction wanted with
  | nil => exact ⟨(next.transcript w).complaints, rfl⟩
  | cons record wanted ih =>
    obtain ⟨complaints, hc⟩ := ih
    refine ⟨t.logText record ++ "\n" ++ complaints, ?_⟩
    rw [List.foldr_cons, Program.transcript, hc]

/-- If there is a report on every text, all of them are printed in order, and the exit code tells
whether all texts match. -/
theorem transcript_reportAll (w : World) {t : Terminal} (verbose : Bool) {l : Language}
    {report : String → Report} (hreport : ∀ text, l.report t text = .ok (report text))
    (texts : List String) (allMatched : Bool) :
    ∃ complaints, (reportAll t verbose l texts allMatched).transcript w = {
      output := String.join (texts.map fun text => (report text).output)
      complaints
      ending := .code
        (if allMatched && texts.all fun text => (report text).matched then 0 else 1) } := by
  induction texts generalizing allMatched with
  | nil => exact ⟨"", by simp [reportAll, Program.transcript]⟩
  | cons text texts ih =>
    obtain ⟨r, hr⟩ : ∃ r, r = report text := ⟨_, rfl⟩
    obtain ⟨complaints, hrest⟩ := ih (allMatched && r.matched)
    obtain ⟨logged, hlog⟩ := transcript_log w t verbose r.log
      (.print r.output (reportAll t verbose l texts (allMatched && r.matched)))
    -- What is logged about a text is among the complaints, so its line comes right before the rest.
    refine ⟨logged, ?_⟩
    rw [reportAll, hreport, ← hr, orFault, hlog, Program.transcript, hrest]
    simp [hr, Bool.and_assoc]

/-! ## Evaluating expressions -/

/-- A text that the arithmetic grammar derives. -/
def Derived (text : String) : Prop :=
  ∃ e : Arithmetic.Expression, e.text = text.toList

/-- The line that is printed for a text: in green the remainder of its value, written in decimal
digits, or in red that the text does not match. -/
inductive LineOf (t : Terminal) (text : String) : String → Prop
  | value {e : Arithmetic.Expression} (he : e.text = text.toList) :
    LineOf t text (t.white ++ t.bright ++ text ++ t.reset ++ " = " ++
      t.green ++ String.ofList (Nat.toDigits 10 (e.value % 0xFFFF)) ++ t.reset ++ "\n")
  | complaint (h : ¬Derived text) :
    LineOf t text (t.red ++ t.bright ++ text ++ t.reset ++ " <- does not match\n")

/-- A remainder has few digits. -/
theorem words_mod (n : Nat) :
    Value.words (.int (n % 0xFFFF : Nat)) = .ok (String.ofList (Nat.toDigits 10 (n % 0xFFFF))) := by
  have hlt : n % 0xFFFF < 10 ^ 5 := (Nat.mod_lt n (by decide)).trans (by decide)
  have hlen : (Nat.toDigits 10 (n % 0xFFFF)).length ≤ 5 := Nat.toDigits_length _ _ _ (by decide) hlt
  exact Number.words_natCast (hlen.trans (by decide))

/-- There is a report on every text. -/
theorem exists_report (t : Terminal) :
    ∃ l, GrammarKind.arithmetic.language = .ok l ∧ ∀ text, ∃ r, l.report t text = .ok r ∧
      LineOf t text r.output ∧ (r.matched = true ↔ Derived text) := by
  obtain ⟨log, hl⟩ := Arithmetic.language_eq
  refine ⟨_, hl, fun text => ?_⟩
  by_cases hd : Derived text
  · obtain ⟨e, he⟩ := hd
    refine ⟨⟨true, _, []⟩, ?_, .value he, iff_of_true rfl ⟨e, he⟩⟩
    rw [Language.report, Language.evaluate, Arithmetic.parse_text log he]
    dsimp only
    rw [Arithmetic.modulus, words_mod]
    rfl
  · have hfail := Arithmetic.parse_failure log hd
    refine ⟨⟨false, _, [⟨Log.debug, "combinators.driver", noMatchMessage text⟩]⟩, ?_,
      .complaint hd, iff_of_false Bool.false_ne_true hd⟩
    rw [Language.report, Language.evaluate, hfail]
    rfl

/-- The program attempts every text that it is given, whatever became of those before. It prints one
line for each, in their order, and its exit code tells whether the arithmetic grammar derives all of
them. -/
theorem transcript_eval (p : Packages) {texts : List String} (hne : texts ≠ [])
    (h : ∀ text ∈ texts, Unhyphened text) (w : World) :
    ∃ lines, List.Forall₂ (LineOf p.terminal) texts lines ∧
      ((program p ("eval" :: texts)).transcript w).output = String.join lines ∧
      ((∀ text ∈ texts, Derived text) →
        ((program p ("eval" :: texts)).transcript w).ending = .code 0) ∧
      ((∃ text ∈ texts, ¬Derived text) →
        ((program p ("eval" :: texts)).transcript w).ending = .code 1) := by
  obtain ⟨l, hl, hreports⟩ := exists_report p.terminal
  choose report hreport hline hmatched using hreports
  have hprogram : program p ("eval" :: texts) =
      .log p.terminal false l.log (reportAll p.terminal false l texts true) := by
    have hlanguage : language (some "expression") = .ok l := hl
    simp only [program, readSettings_eval hne h, evalProgram, hlanguage, orFault]
  obtain ⟨complaints, hlog⟩ :=
    transcript_log w p.terminal false l.log (reportAll p.terminal false l texts true)
  obtain ⟨reported, hrun⟩ := transcript_reportAll w false hreport texts true
  rw [hprogram, hlog, hrun]
  refine ⟨texts.map fun text => (report text).output, ?_, rfl, fun hall => ?_, ?_⟩
  · rw [List.forall₂_map_right_iff]
    exact List.forall₂_same.mpr fun text _ => hline text
  · have hmatch : (texts.all fun text => (report text).matched) = true :=
      List.all_eq_true.mpr fun text ht => (hmatched text).mpr (hall text ht)
    rw [hmatch]
    rfl
  · rintro ⟨text, ht, hn⟩
    have hmatch : (texts.all fun text => (report text).matched) = false :=
      List.all_eq_false.mpr ⟨text, ht, mt (hmatched text).mp hn⟩
    rw [hmatch]
    rfl

/-- A world in which nothing is measured and no file is seen. -/
def emptyWorld : World where
  measurement := ⟨"", "", "", ""⟩
  place _ := .ok none

theorem transcript_eval_four : ["1+2", "(", "0", ""] ≠ [] ∧
    (∀ text ∈ ["1+2", "(", "0", ""], Unhyphened text) ∧
    ∃ lines, List.Forall₂ (LineOf packages.terminal) ["1+2", "(", "0", ""] lines ∧
      ((program packages ["eval", "1+2", "(", "0", ""]).transcript emptyWorld).output =
        String.join lines ∧
      ((∀ text ∈ ["1+2", "(", "0", ""], Derived text) →
        ((program packages ["eval", "1+2", "(", "0", ""]).transcript emptyWorld).ending =
          .code 0) ∧
      ((∃ text ∈ ["1+2", "(", "0", ""], ¬Derived text) →
        ((program packages ["eval", "1+2", "(", "0", ""]).transcript emptyWorld).ending =
          .code 1) :=
  ⟨by decide, by decide, transcript_eval packages (by decide) (by decide) emptyWorld⟩

end ParserGraph.CommandLine
