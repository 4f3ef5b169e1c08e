import Mathlib.Data.Int.ModEq
import ParserGraph.Benchmark.Basic
import ParserGraph.Proofs.Generator.Trees

/-!
# What a seed decides

A random number is a linear function of the one before, modulo a power of two. Its factor is odd, so
a random number is decided by the residue of the one before, and decides it (`next_eq_iff`). Hence
generators whose seeds have one residue cannot be told apart by anything that they are asked for,
and those whose seeds have not never draw the same number at the same time (`modEq_iff_replies`).

The factor being odd and the summand even, random numbers also keep the parity of the seed. As ten
is even, so do the digits of generated expressions (`parity_of_seed`): one half of the digits never
occurs in the input of a benchmark.
-/

namespace ParserGraph.Generator

open Arithmetic

variable {g h : Generator}

/-! ## Seeds with one residue -/

theorem next_eq_iff : g.next.1 = h.next.1 ↔ g.state ≡ h.state [ZMOD modulus] := by
  simp only [next, modulus, Int.ModEq]
  omega

/-- The generator goes on from the random number alone. -/
theorem next_congr (hs : g.state ≡ h.state [ZMOD modulus]) : g.next = h.next :=
  Prod.ext (next_eq_iff.mpr hs) (congrArg Generator.mk (next_eq_iff.mpr hs))

theorem next_modEq_iff :
    g.next.2.state ≡ h.next.2.state [ZMOD modulus] ↔ g.state ≡ h.state [ZMOD modulus] := by
  simp only [next, modulus, Int.ModEq]
  omega

theorem skip_modEq_iff (n : Nat) :
    (skip n g).state ≡ (skip n h).state [ZMOD modulus] ↔ g.state ≡ h.state [ZMOD modulus] := by
  induction n generalizing g h with
  | zero => rfl
  | succ n ih => exact ih.trans next_modEq_iff

/-- Every expression begins with a random number. -/
theorem characters_congr (hs : g.state ≡ h.state [ZMOD modulus]) (depth : Nat) :
    characters depth g = characters depth h := by
  cases depth <;> simp only [characters, next_congr hs]

/-- What a generator replies to a call. -/
inductive Reply
  | number (n : Int)
  | text (s : String)

def Call.reply (g : Generator) : Call → Reply
  | .next => .number g.next.1
  | .expression depth => .text (g.expression depth).1

/-- The replies to calls that are made one after the other. -/
def replies : Generator → List Call → List Reply
  | _, [] => []
  | g, call :: calls => call.reply g :: replies (call.after g) calls

/-- One call is enough to forget all of a seed but its residue. -/
theorem replies_congr (hs : g.state ≡ h.state [ZMOD modulus]) (calls : List Call) :
    replies g calls = replies h calls := by
  cases calls with
  | nil => rfl
  | cons call calls =>
    cases call with
    | next => simp only [replies, Call.reply, Call.after, next_congr hs]
    | expression depth =>
      simp only [replies, Call.reply, Call.after, expression, characters_congr hs]

/-- Generators agree in their replies to all calls if the residues of their seeds agree. Otherwise
no two random numbers that they draw at the same time agree. -/
theorem modEq_iff_replies (s t : Int) :
    ∃ g h, Generator.ofValue (.int s) = .ok g ∧ Generator.ofValue (.int t) = .ok h ∧
      (s ≡ t [ZMOD 4096] ↔ ∀ calls, replies g calls = replies h calls) ∧
      ∀ n, (skip n g).next.1 = (skip n h).next.1 ↔ s ≡ t [ZMOD 4096] := by
  refine ⟨⟨s⟩, ⟨t⟩, rfl, rfl, ⟨fun hs => replies_congr hs, fun hr => ?_⟩, fun n => ?_⟩
  · exact next_eq_iff.mp (Reply.number.inj (List.cons.inj (hr [.next])).1)
  · exact next_eq_iff.trans (skip_modEq_iff n)

/-! ## Parity -/

theorem next_parity (g : Generator) : g.next.1 ≡ g.state [ZMOD 2] := by
  simp only [next, modulus, Int.ModEq]
  omega

theorem skip_parity (n : Nat) (g : Generator) : (skip n g).state ≡ g.state [ZMOD 2] := by
  induction n generalizing g with
  | zero => rfl
  | succ n ih => exact (ih g.next.2).trans g.next_parity

theorem next_range (g : Generator) : 0 ≤ g.next.1 ∧ g.next.1 ≤ 4095 := by
  simp only [next, modulus]
  omega

theorem characters_snd_parity (depth : Nat) (g : Generator) :
    (characters depth g).2.state ≡ g.state [ZMOD 2] := by
  obtain ⟨t, ht⟩ := characters_eq depth g
  rw [ht]
  exact skip_parity t.size g

theorem Call.after_parity (g : Generator) (call : Call) :
    (call.after g).state ≡ g.state [ZMOD 2] := by
  cases call with
  | next => exact g.next_parity
  | expression depth => exact characters_snd_parity depth.toNat g

theorem calls_parity (g : Generator) (calls : List Call) :
    (calls.foldl Call.after g).state ≡ g.state [ZMOD 2] := by
  induction calls generalizing g with
  | nil => rfl
  | cons call calls ih => exact (ih (call.after g)).trans (call.after_parity g)

/-- A generated text has only signs, parentheses, and digits of the parity of the state. -/
theorem characters_parity {n : Int} (depth : Nat) {g : Generator} (hg : g.state ≡ n [ZMOD 2]) :
    ∀ c ∈ (characters depth g).1, c ∈ ['+', '*', '(', ')'] ∨
      ∃ d : Fin 10, c = digitChar d ∧ (d : Int) ≡ n [ZMOD 2] := by
  induction depth generalizing g with
  | zero =>
    obtain ⟨d, hd, hvalue⟩ := exists_digit g.next.1
    have hlast : (d : Int) ≡ g.next.1 [ZMOD 2] := by
      rw [hvalue, Int.ModEq]
      omega
    exact List.forall_mem_singleton.mpr (.inr ⟨d, hd.symm, (hlast.trans g.next_parity).trans hg⟩)
  | succ depth ih =>
    have hnext : g.next.2.state ≡ n [ZMOD 2] := g.next_parity.trans hg
    have hleft := ih hnext
    have hright := ih ((characters_snd_parity depth g.next.2).trans hnext)
    simp only [characters]
    split
    · refine List.forall_mem_cons.mpr ⟨.inl (by decide), List.forall_mem_append.mpr
        ⟨hleft, List.forall_mem_singleton.mpr (.inl (by decide))⟩⟩
    · refine List.forall_mem_append.mpr ⟨hleft, List.forall_mem_cons.mpr ⟨.inl ?_, hright⟩⟩
      split <;> decide

/-- In an expression that is made from an even state half of the digits do not occur. -/
theorem even_characters (hg : Even g.state) (depth : Nat) :
    ∀ c ∈ (characters depth g).1, c ∈ ['+', '*', '(', ')', '0', '2', '4', '6', '8'] := by
  have hdigit : ∀ d : Fin 10, (d : Int) % 2 = 0 →
      digitChar d ∈ ['+', '*', '(', ')', '0', '2', '4', '6', '8'] := by decide
  intro c hc
  rcases characters_parity depth rfl c hc with hsign | ⟨d, rfl, hp⟩
  · exact List.mem_append_left _ hsign
  · exact hdigit d (hp.eq.trans (Int.even_iff.mp hg))

/-- Benchmarks can be made, with an expression from the seed and to the depth of their options. -/
theorem make_eq (config : Benchmark.Config) (language : Option Language) :
    ∃ b log, Benchmark.make config language = .ok (b, log) ∧
      b.expression = ((⟨config.seed⟩ : Generator).expression config.depth).1 := by
  cases language with
  | some l => exact ⟨Benchmark.forLanguage config l, _, rfl, rfl⟩
  | none =>
    obtain ⟨log, hl⟩ := language_eq
    exact ⟨Benchmark.forLanguage config _, _, by rw [Benchmark.make, hl]; rfl, rfl⟩

/-- Whatever a generator was called for, its random numbers are below 4096 and have the parity of
its seed, and so have the digits of its expressions. So a benchmark with an even seed, as it is by
default, has an expression with even digits only. -/
theorem parity_of_seed :
    (∀ (seed : Int) (calls : List Call), ∃ g, Generator.ofValue (.int seed) = .ok g ∧
      0 ≤ (calls.foldl Call.after g).next.1 ∧ (calls.foldl Call.after g).next.1 ≤ 4095 ∧
      (calls.foldl Call.after g).next.1 ≡ seed [ZMOD 2] ∧
      ∀ (depth : Int) (d : Fin 10),
        digitChar d ∈ ((calls.foldl Call.after g).expression depth).1.toList →
          (d : Int) ≡ seed [ZMOD 2]) ∧
    Even ({} : Benchmark.Config).seed ∧
    ∀ (config : Benchmark.Config) (language : Option Language), ∃ b log,
      Benchmark.make config language = .ok (b, log) ∧
        (Even config.seed → ∀ c ∈ b.expression.toList,
          c ∈ ['+', '*', '(', ')', '0', '2', '4', '6', '8']) := by
  refine ⟨fun seed calls => ?_, by decide, fun config language => ?_⟩
  · have hstate := calls_parity ⟨seed⟩ calls
    refine ⟨⟨seed⟩, rfl, (next_range _).1, (next_range _).2, (next_parity _).trans hstate,
      fun depth d hd => ?_⟩
    rw [expression, String.toList_ofList] at hd
    rcases characters_parity _ hstate _ hd with hsign | ⟨d', hd', hp⟩
    · have hne : ∀ d : Fin 10, digitChar d ∉ ['+', '*', '(', ')'] := by decide
      exact absurd hsign (hne d)
    · rwa [digitChar_injective hd']
  · obtain ⟨b, log, hb, he⟩ := make_eq config language
    refine ⟨b, log, hb, fun heven => ?_⟩
    rw [he, expression, String.toList_ofList]
    exact even_characters heven _

theorem parity_of_minusThree_and_default :
    (∃ g, Generator.ofValue (.int (-3)) = .ok g ∧
      digitChar 7 ∈ (([.next, .expression 2].foldl Call.after g).expression 3).1.toList ∧
      ((7 : Fin 10) : Int) ≡ -3 [ZMOD 2]) ∧
    ∃ b log, Benchmark.make {} none = .ok (b, log) ∧
      ∀ c ∈ b.expression.toList, c ∈ ['+', '*', '(', ')', '0', '2', '4', '6', '8'] := by
  obtain ⟨hseed, hdefault, hmake⟩ := parity_of_seed
  constructor
  · obtain ⟨g, hg, -, -, -, hdigits⟩ := hseed (-3) [.next, .expression 2]
    cases hg
    exact ⟨_, rfl, by decide, hdigits 3 7 (by decide)⟩
  · obtain ⟨b, log, hb, hc⟩ := hmake {} none
    exact ⟨b, log, hb, hc hdefault⟩

end ParserGraph.Generator
