import Mathlib.Data.List.Nodup
import ParserGraph.Proofs.Json.Reading
import ParserGraph.Proofs.Number.Decimal

/-!
# JSON texts read back

What is written of a value reads back as that value, with the entries of dictionaries in their order
(`read?_text`), if the value is one that JSON knows (`Plain`): bytes and the failure marker are
written as texts, and floats are left out. The proof goes along the value, with the rest of the text
as a parameter (`ReadsBack`): what follows a value must not go on with a number (`Ends`), and what
follows in a list or a dictionary never does.

Each character is read back from its own escape (`readCharacters_escape`), and all that is written
is printable ASCII (`printable_characters`).
-/

namespace ParserGraph.Json

variable {rest : List Char} {steps : Nat}

/-- A value of a kind that JSON knows, floats apart. An integer is written if it has no more digits
than an integer is read with. -/
inductive Plain : Value → Prop
  | null : Plain .null
  | bool (b : Bool) : Plain (.bool b)
  | int {n : Int} (h : (toString n.natAbs).length ≤ Number.maxDigits) : Plain (.int n)
  | text (s : String) : Plain (.text s)
  | list {items : List Value} (h : ∀ v ∈ items, Plain v) : Plain (.list items)
  | dict {fields : List (String × Value)} (hkeys : (fields.map Prod.fst).Nodup)
    (h : ∀ field ∈ fields, Plain field.2) : Plain (.dict fields)

/-! ## Hexadecimal digits -/

theorem digit?_hexDigit {d : Nat} (h : d < 16) : Number.digit? 16 (Text.hexDigit d) = some d := by
  revert d
  decide

theorem hex_four (n : Nat) :
    Text.hex 4 n = [Text.hexDigit (n / 16 / 16 / 16 % 16), Text.hexDigit (n / 16 / 16 % 16),
      Text.hexDigit (n / 16 % 16), Text.hexDigit (n % 16)] :=
  rfl

/-- A unit is read back from its four digits. -/
theorem readUnit_hex {n : Nat} (h : n < 0x10000) (rest : List Char) :
    readUnit (Text.hex 4 n ++ rest) = some (n, rest) := by
  have hdigits (m : Nat) := digit?_hexDigit (Nat.mod_lt m (by decide : 0 < 16))
  have hvalue : Number.ofDigits 16
      [n / 16 / 16 / 16 % 16, n / 16 / 16 % 16, n / 16 % 16, n % 16] = n := by
    simp only [Number.ofDigits, List.foldl_cons, List.foldl_nil]
    omega
  simp [hex_four, readUnit, hdigits, hvalue]

/-! ## Characters -/

/-- A character is read back from the letter of its short escape. -/
theorem readEscape_letter {c letter : Char} (h : shortEscape? c = some letter)
    (rest : List Char) : readEscape (letter :: rest) = some (c, rest) := by
  unfold shortEscape? at h
  split_ifs at h <;> subst_vars <;> cases h <;> rfl

/-- A character is read back from the units of its code point. -/
theorem readEscape_unit {c : Char} (h : c.toNat < 0x10000) (rest : List Char) :
    readEscape ('u' :: (Text.hex 4 c.toNat ++ rest)) = some (c, rest) := by
  have hvalid : c.toNat < 0xD800 ∨ 0xE000 ≤ c.toNat := by
    rcases c.valid with h | h
    · exact .inl h
    · exact .inr (Nat.succ_le_of_lt h.1)
  simp [readEscape, readUnit_hex h, readCodePoint, hvalid, Char.ofNat_toNat]

/-- A character is read back from the two units of a surrogate pair. -/
theorem readEscape_pair {c : Char} (h : 0x10000 ≤ c.toNat) (rest : List Char) :
    readEscape ('u' :: (Text.hex 4 (0xD800 + (c.toNat - 0x10000) / 0x400) ++
      '\\' :: 'u' :: (Text.hex 4 (0xDC00 + (c.toNat - 0x10000) % 0x400) ++ rest))) =
        some (c, rest) := by
  have hlt : c.toNat < 0x110000 := by
    rcases c.valid with h | h
    · exact Nat.lt_trans h (by decide)
    · exact h.2
  -- The two units get names, so that what is left is arithmetic about them.
  obtain ⟨high, hhigh⟩ : ∃ high, high = 0xD800 + (c.toNat - 0x10000) / 0x400 := ⟨_, rfl⟩
  obtain ⟨low, hlow⟩ : ∃ low, low = 0xDC00 + (c.toNat - 0x10000) % 0x400 := ⟨_, rfl⟩
  rw [← hhigh, ← hlow]
  have hreadLow : readLow ('\\' :: 'u' :: (Text.hex 4 low ++ rest)) = some (low, rest) := by
    have hbounds : 0xDC00 ≤ low ∧ low < 0xE000 := by omega
    simp [readLow, readUnit_hex (show low < 0x10000 by omega), hbounds]
  have hfirst : ¬(high < 0xD800 ∨ 0xE000 ≤ high) := by omega
  have hsecond : high < 0xDC00 := by omega
  have hvalue : 0x10000 + (high - 0xD800) * 0x400 + (low - 0xDC00) = c.toNat := by omega
  simp [readEscape, readUnit_hex (show high < 0x10000 by omega), readCodePoint, hreadLow, hvalue,
    hfirst, hsecond, Char.ofNat_toNat]

/-- The characters after an escape are read as if it were its character. -/
theorem readCharacters_escape (c : Char) (steps : Nat) (rest : List Char) :
    readCharacters (steps + 1) (escape c ++ rest) =
      (readCharacters steps rest).map fun (text, cs) => (c :: text, cs) := by
  have hescape {cs : List Char} (h : readEscape cs = some (c, rest)) :
      readCharacters (steps + 1) ('\\' :: cs) =
        (readCharacters steps rest).map fun (text, cs) => (c :: text, cs) := by
    cases hr : readCharacters steps rest <;> simp [readCharacters, h, hr]
  unfold escape
  split
  · rename_i letter hl
    exact hescape (readEscape_letter hl rest)
  rename_i hnone
  dsimp only
  split_ifs with hprintable hunit
  · have hc : c ≠ '"' ∧ c ≠ '\\' := by
      constructor <;> rintro rfl <;> cases hnone
    cases hr : readCharacters steps rest <;>
      simp [readCharacters, hc, Nat.not_lt.mpr hprintable.1, hr]
  · exact hescape (readEscape_unit hunit rest)
  · refine hescape ?_
    simpa [unitEscape] using readEscape_pair (Nat.le_of_not_lt hunit) rest

theorem readCharacters_string (text : List Char) (h : text.length < steps) (rest : List Char) :
    readCharacters steps (text.flatMap escape ++ '"' :: rest) = some (text, rest) := by
  induction text generalizing steps with
  | nil =>
    obtain ⟨steps, rfl⟩ := Nat.exists_eq_add_one_of_ne_zero (Nat.ne_of_gt h)
    rfl
  | cons c text ih =>
    obtain ⟨steps, rfl⟩ := Nat.exists_eq_add_one_of_ne_zero (Nat.ne_of_gt (Nat.zero_lt_of_lt h))
    rw [List.flatMap_cons, List.append_assoc, readCharacters_escape,
      ih (Nat.lt_of_succ_lt_succ h)]
    rfl

theorem escape_ne_nil (c : Char) : escape c ≠ [] := by
  unfold escape
  split
  · simp
  · dsimp only
    split_ifs <;> simp [unitEscape]

theorem length_le_length_flatMap_escape (text : List Char) :
    text.length ≤ (text.flatMap escape).length := by
  induction text with
  | nil => exact Nat.le_refl 0
  | cons c text ih =>
    have hc := List.length_pos_of_ne_nil (escape_ne_nil c)
    rw [List.flatMap_cons, List.length_append, List.length_cons]
    omega

/-- A string is read back, after its first quotation mark. -/
theorem readString_string (s : String) (rest : List Char) :
    readString (s.toList.flatMap escape ++ '"' :: rest) = some (s, rest) := by
  have hsteps : s.toList.length < (s.toList.flatMap escape ++ '"' :: rest).length + 1 := by
    have := length_le_length_flatMap_escape s.toList
    rw [List.length_append]
    omega
  rw [readString, readCharacters_string _ hsteps]
  simp

/-! ## Numbers -/

/-- A text that does not go on with a number. -/
def Ends (rest : List Char) : Prop :=
  ∀ c ∈ rest.head?, c.isDigit = false ∧ c ≠ '.' ∧ c ≠ 'e' ∧ c ≠ 'E'

theorem readDigits_append {digits : List Char} (hd : Number.Digits digits) (hne : digits ≠ [])
    (hends : Ends rest) : readDigits (digits ++ rest) = some (digits, rest) := by
  have htake : rest.takeWhile Char.isDigit = [] := by
    cases rest with
    | nil => rfl
    | cons c rest => exact List.takeWhile_cons_of_neg (by simp [(hends c rfl).1])
  have hdrop : rest.dropWhile Char.isDigit = rest := by
    cases rest with
    | nil => rfl
    | cons c rest => exact List.dropWhile_cons_of_neg (by simp [(hends c rfl).1])
  rw [readDigits, List.takeWhile_append_of_pos hd, List.dropWhile_append_of_pos hd, htake, hdrop,
    List.append_nil]
  cases digits with
  | nil => exact absurd rfl hne
  | cons c digits => rfl

/-- A magnitude is read back from its digits. -/
theorem readMagnitude_toDigits (negative : Bool) (n : Nat) (hends : Ends rest) :
    readMagnitude negative (Nat.toDigits 10 n ++ rest) =
      some (.int (Number.signed negative n), rest) := by
  have hwhole : readWhole (Nat.toDigits 10 n ++ rest) = some (Nat.toDigits 10 n, rest) := by
    rw [readWhole, readDigits_append (Number.digits_toDigits n) Nat.toDigits_ne_nil hends]
    simpa [Option.filter, imp_iff_not_or] using Number.head?_toDigits n
  have hfraction : readFraction rest = some ([], rest) := by
    unfold readFraction
    split
    · exact absurd rfl (hends _ rfl).2.1
    · rfl
  have hexponent : readExponent rest = some ([], rest) := by
    cases rest with
    | nil => rfl
    | cons c rest => simp [readExponent, (hends c rfl).2.2]
  simp [readMagnitude, hwhole, hfraction, hexponent]

theorem skip_cons {c : Char} (hc : isSpace c = false) (cs : List Char) :
    skip (c :: cs) = c :: cs :=
  List.dropWhile_cons_of_neg (by simp [hc])

/-- A character that begins a number begins no other value, and is neither a blank nor the end of a
list. -/
structure BeginsNumber (c : Char) : Prop where
  isSpace : isSpace c = false
  ne_quotation : c ≠ '"'
  ne_list : c ≠ '['
  ne_dict : c ≠ '\x7b'
  ne_null : c ≠ 'n'
  ne_true : c ≠ 't'
  ne_false : c ≠ 'f'
  ne_end : c ≠ ']'

theorem beginsNumber_of_isDigit {c : Char} (hc : c.isDigit = true) : BeginsNumber c := by
  refine Number.forall_digit (fun d => ?_) hc
  revert d
  exact fun
    | 0 | 1 | 2 | 3 | 4 | 5 | 6 | 7 | 8 | 9 => by constructor <;> decide

theorem beginsNumber_minus : BeginsNumber '-' := by
  constructor <;> decide

theorem readValue_of_beginsNumber {c : Char} (hc : BeginsNumber c) (steps : Nat) (cs : List Char) :
    readValue (steps + 1) (c :: cs) = readNumber (c :: cs) := by
  simp [readValue, skip, readWord, hc.isSpace, hc.ne_quotation, hc.ne_list, hc.ne_dict, hc.ne_null,
    hc.ne_true, hc.ne_false]

theorem exists_toDigits (n : Nat) : ∃ c cs, c.isDigit = true ∧ Nat.toDigits 10 n = c :: cs := by
  obtain ⟨c, cs, hcs⟩ := List.exists_cons_of_ne_nil (Nat.toDigits_ne_nil (b := 10) (n := n))
  exact ⟨c, cs, Number.digits_toDigits n c (hcs ▸ List.mem_cons_self), hcs⟩

theorem characters_ofNat (n : Nat) : characters (.int n) = Nat.toDigits 10 n := by
  have h : characters (.int n) = (toString n).toList := rfl
  rw [h, Nat.toString_eq_ofList_toDigits, String.toList_ofList]

theorem characters_negSucc (n : Nat) :
    characters (.int (.negSucc n)) = '-' :: Nat.toDigits 10 (n + 1) := by
  have h : characters (.int (.negSucc n)) = '-' :: (toString (n + 1)).toList :=
    String.toList_append
  rw [h, Nat.toString_eq_ofList_toDigits, String.toList_ofList]

/-- An integer is read back. -/
theorem readValue_int (n : Int) (steps : Nat) (hends : Ends rest) :
    readValue (steps + 1) (characters (.int n) ++ rest) = some (.int n, rest) := by
  cases n with
  | ofNat n =>
    obtain ⟨c, cs, hc, hcs⟩ := exists_toDigits n
    have hb := beginsNumber_of_isDigit hc
    have hnumber : readNumber (c :: (cs ++ rest)) = readMagnitude false (c :: (cs ++ rest)) := by
      unfold readNumber
      split
      · rename_i he
        cases he
        cases hc
      · rfl
    rw [Int.ofNat_eq_natCast, characters_ofNat, hcs, List.cons_append,
      readValue_of_beginsNumber hb, hnumber, ← List.cons_append, ← hcs,
      readMagnitude_toDigits false n hends]
    rfl
  | negSucc n =>
    rw [characters_negSucc, List.cons_append, readValue_of_beginsNumber beginsNumber_minus]
    exact readMagnitude_toDigits true (n + 1) hends

/-! ## Values -/

/-- What is written of a value begins with a character that is neither a blank nor the end of a
list. -/
theorem exists_characters {v : Value} (hv : Plain v) :
    ∃ c cs, characters v = c :: cs ∧ isSpace c = false ∧ c ≠ ']' := by
  cases hv with
  | null => exact ⟨'n', _, rfl, by decide⟩
  | bool b => cases b <;> exact ⟨_, _, rfl, by decide⟩
  | @int n _ =>
    cases n with
    | ofNat n =>
      obtain ⟨c, cs, hc, hcs⟩ := exists_toDigits n
      have hb := beginsNumber_of_isDigit hc
      exact ⟨c, cs, (characters_ofNat n).trans hcs, hb.isSpace, hb.ne_end⟩
    | negSucc n => exact ⟨'-', _, characters_negSucc n, by decide⟩
  | text s => exact ⟨'"', _, rfl, by decide⟩
  | @list items _ => cases items <;> exact ⟨'[', _, rfl, by decide⟩
  | @dict fields _ _ =>
    cases fields <;> exact ⟨'\x7b', _, rfl, by decide⟩

theorem readValue_space (steps : Nat) (cs : List Char) :
    readValue steps (' ' :: cs) = readValue steps cs := by
  cases steps with
  | zero => rfl
  | succ steps => rfl

theorem readField_space (steps : Nat) (cs : List Char) :
    readField steps (' ' :: cs) = readField steps cs := by
  cases steps with
  | zero => rfl
  | succ steps => rfl

theorem readValue_string (s : String) (steps : Nat) (rest : List Char) :
    readValue (steps + 1) (string s ++ rest) = some (.text s, rest) := by
  have h : string s ++ rest = '"' :: (s.toList.flatMap escape ++ '"' :: rest) := by simp [string]
  rw [h]
  simp [readValue, skip, isSpace, readString_string]

/-- A list is its first item and the others. -/
theorem readValue_list {v : Value} (hv : Plain v) (steps : Nat) (cs : List Char) :
    readValue (steps + 1) ('[' :: (characters v ++ cs)) = do
      let (v, cs) ← readValue steps (characters v ++ cs)
      let (items, cs) ← readMoreItems steps cs
      return (.list (v :: items), cs) := by
  obtain ⟨c, item, hcs, hspace, hend⟩ := exists_characters hv
  have hopen : isSpace '[' = false := rfl
  simp [readValue, hcs, skip_cons hopen, skip_cons hspace, hend]

/-- A dictionary is its first entry and the others. -/
theorem readValue_dict (key : String) (steps : Nat) (cs : List Char) :
    readValue (steps + 1) ('\x7b' :: (string key ++ cs)) = do
      let (field, cs) ← readField steps (string key ++ cs)
      let (fields, cs) ← readMoreFields steps cs
      return (.ofEntries (field :: fields), cs) :=
  rfl

/-- A value that is read back from what is written of it, whatever follows, in as many steps as
there are characters and one more. -/
def ReadsBack (v : Value) : Prop :=
  ∀ {steps : Nat} {rest : List Char}, Ends rest → (characters v).length ≤ steps →
    readValue (steps + 1) (characters v ++ rest) = some (v, rest)

/-! ### Lists -/

theorem moreItems_cons (v : Value) (items : List Value) :
    moreItems (v :: items) = ',' :: ' ' :: (characters v ++ moreItems items) :=
  rfl

theorem characters_list (v : Value) (items : List Value) :
    characters (.list (v :: items)) = '[' :: (characters v ++ moreItems items) :=
  rfl

theorem ends_moreItems (items : List Value) (rest : List Char) :
    Ends (moreItems items ++ rest) := by
  cases items <;> rintro c ⟨⟩ <;> decide

theorem readMoreItems_comma (steps : Nat) (cs : List Char) :
    readMoreItems (steps + 1) (',' :: ' ' :: cs) = do
      let (v, cs) ← readValue steps cs
      let (items, cs) ← readMoreItems steps cs
      return (v :: items, cs) := by
  rw [← readValue_space]
  rfl

/-- The items after the first are read back if each of them is. -/
theorem readMoreItems_moreItems {items : List Value} (hitems : ∀ v ∈ items, ReadsBack v)
    (h : (moreItems items).length ≤ steps) :
    readMoreItems (steps + 1) (moreItems items ++ rest) = some (items, rest) := by
  induction items generalizing steps with
  | nil => rfl
  | cons v items ih =>
    obtain ⟨hv, hitems⟩ := List.forall_mem_cons.mp hitems
    rw [moreItems_cons, List.length_cons, List.length_cons, List.length_append] at h
    obtain ⟨steps, rfl⟩ := Nat.exists_eq_add_one_of_ne_zero (show steps ≠ 0 by omega)
    have hitem := hv (ends_moreItems items rest) (show (characters v).length ≤ steps by omega)
    have hmore := ih hitems (show (moreItems items).length ≤ steps by omega)
    simp [moreItems_cons, readMoreItems_comma, hitem, hmore]

/-- A list is read back if each of its items is. -/
theorem ReadsBack.list {items : List Value} (hplain : ∀ v ∈ items, Plain v)
    (hitems : ∀ v ∈ items, ReadsBack v) : ReadsBack (.list items) := by
  intro steps rest _ h
  cases items with
  | nil => rfl
  | cons v items =>
    obtain ⟨hv, hitems⟩ := List.forall_mem_cons.mp hitems
    rw [characters_list, List.length_cons, List.length_append] at h
    obtain ⟨steps, rfl⟩ := Nat.exists_eq_add_one_of_ne_zero (show steps ≠ 0 by omega)
    have hitem := hv (ends_moreItems items rest) (show (characters v).length ≤ steps by omega)
    have hmore : readMoreItems (steps + 1) (moreItems items ++ rest) = some (items, rest) :=
      readMoreItems_moreItems hitems (by omega)
    simp [characters_list, readValue_list (hplain v List.mem_cons_self), hitem, hmore]

/-! ### Dictionaries -/

/-- Setting keys that are new one after another appends their entries. -/
theorem foldl_setField (entries fields : List (String × Value))
    (h : ((fields ++ entries).map Prod.fst).Nodup) :
    entries.foldl (fun fields (key, v) => Value.setField fields key v) fields =
      fields ++ entries := by
  induction entries generalizing fields with
  | nil => simp
  | cons entry entries ih =>
    obtain ⟨key, v⟩ := entry
    have hkey : key ∉ fields.map Prod.fst := by
      rw [List.map_append, List.nodup_append] at h
      exact fun hk => h.2.2 key hk key List.mem_cons_self rfl
    have hnew : Value.setField fields key v = fields ++ [(key, v)] :=
      if_neg (by simpa using hkey)
    have hnodup : (((fields ++ [(key, v)]) ++ entries).map Prod.fst).Nodup := by simpa using h
    -- The first key is new, so its entry is now the last one in front of the others.
    change entries.foldl _ (Value.setField fields key v) = _
    rw [hnew, ih _ hnodup, List.append_assoc]
    rfl

theorem ofEntries_eq {fields : List (String × Value)} (h : (fields.map Prod.fst).Nodup) :
    Value.ofEntries fields = .dict fields := by
  rw [Value.ofEntries, foldl_setField fields [] h, List.nil_append]

theorem moreFields_cons (key : String) (v : Value) (fields : List (String × Value)) :
    moreFields ((key, v) :: fields) =
      ',' :: ' ' :: (string key ++ ':' :: ' ' :: (characters v ++ moreFields fields)) := by
  change ", ".toList ++ string key ++ ": ".toList ++ characters v ++ moreFields fields = _
  simp

theorem characters_dict (key : String) (v : Value) (fields : List (String × Value)) :
    characters (.dict ((key, v) :: fields)) =
      '\x7b' :: (string key ++ ':' :: ' ' :: (characters v ++ moreFields fields)) := by
  change '\x7b' :: string key ++ ": ".toList ++ characters v ++ moreFields fields = _
  simp

theorem ends_moreFields (fields : List (String × Value)) (rest : List Char) :
    Ends (moreFields fields ++ rest) := by
  cases fields <;> rintro c ⟨⟩ <;> decide

/-- An entry is read back if its value is. -/
theorem readField_entry (key : String) {v : Value} (hv : ReadsBack v) (hends : Ends rest)
    (h : (characters v).length < steps) :
    readField (steps + 1) (string key ++ ':' :: ' ' :: (characters v ++ rest)) =
      some ((key, v), rest) := by
  have htext : string key ++ ':' :: ' ' :: (characters v ++ rest) =
      '"' :: (key.toList.flatMap escape ++ '"' :: ':' :: ' ' :: (characters v ++ rest)) := by
    simp [string]
  have hstep : readField (steps + 1) (string key ++ ':' :: ' ' :: (characters v ++ rest)) = do
      let (v, cs) ← readValue steps (' ' :: (characters v ++ rest))
      return ((key, v), cs) := by
    rw [htext]
    simp [readField, skip, isSpace, readString_string]
  obtain ⟨steps, rfl⟩ := Nat.exists_eq_add_one_of_ne_zero (Nat.ne_zero_of_lt h)
  rw [hstep, readValue_space, hv hends (Nat.le_of_lt_succ h)]
  rfl

theorem readMoreFields_comma (steps : Nat) (cs : List Char) :
    readMoreFields (steps + 1) (',' :: ' ' :: cs) = do
      let (field, cs) ← readField steps cs
      let (fields, cs) ← readMoreFields steps cs
      return (field :: fields, cs) := by
  rw [← readField_space]
  rfl

/-- The entries after the first are read back if the value of each of them is. -/
theorem readMoreFields_moreFields {fields : List (String × Value)}
    (hfields : ∀ field ∈ fields, ReadsBack field.2) (h : (moreFields fields).length ≤ steps) :
    readMoreFields (steps + 1) (moreFields fields ++ rest) = some (fields, rest) := by
  induction fields generalizing steps with
  | nil => rfl
  | cons field fields ih =>
    obtain ⟨key, v⟩ := field
    obtain ⟨hv, hfields⟩ := List.forall_mem_cons.mp hfields
    simp only [moreFields_cons, List.length_cons, List.length_append] at h
    obtain ⟨steps, rfl⟩ := Nat.exists_eq_add_one_of_ne_zero (show steps ≠ 0 by omega)
    have hfield := readField_entry key hv (ends_moreFields fields rest)
      (show (characters v).length < steps by omega)
    have hmore := ih hfields (show (moreFields fields).length ≤ steps by omega)
    simp [moreFields_cons, readMoreFields_comma, hfield, hmore]

/-- A dictionary is read back if the value of each of its entries is. -/
theorem ReadsBack.dict {fields : List (String × Value)} (hkeys : (fields.map Prod.fst).Nodup)
    (hfields : ∀ field ∈ fields, ReadsBack field.2) : ReadsBack (.dict fields) := by
  intro steps rest _ h
  cases fields with
  | nil => rfl
  | cons field fields =>
    obtain ⟨key, v⟩ := field
    obtain ⟨hv, hfields⟩ := List.forall_mem_cons.mp hfields
    simp only [characters_dict, List.length_cons, List.length_append] at h
    obtain ⟨steps, rfl⟩ := Nat.exists_eq_add_one_of_ne_zero (show steps ≠ 0 by omega)
    have hfield := readField_entry key hv (ends_moreFields fields rest)
      (show (characters v).length < steps by omega)
    have hmore : readMoreFields (steps + 1) (moreFields fields ++ rest) = some (fields, rest) :=
      readMoreFields_moreFields hfields (by omega)
    simp [characters_dict, readValue_dict, hfield, hmore, ofEntries_eq hkeys]

/-! ### All values -/

/-- A plain value is read back. -/
theorem Plain.readsBack {v : Value} (hv : Plain v) : ReadsBack v := by
  induction hv with
  | null => exact fun _ _ => rfl
  | bool b => cases b <;> exact fun _ _ => rfl
  | int _ => exact fun hends _ => readValue_int _ _ hends
  | text s => exact fun _ _ => readValue_string s _ _
  | list hplain ih => exact ReadsBack.list hplain ih
  | dict hkeys _ ih => exact ReadsBack.dict hkeys ih

/-! ## What is written -/

/-- A printable ASCII character. -/
abbrev Printable (c : Char) : Prop :=
  0x20 ≤ c.toNat ∧ c.toNat ≤ 0x7E

theorem forall_printable {cs : List Char} (h : cs.all (fun c => decide (Printable c)) = true) :
    ∀ c ∈ cs, Printable c := fun c hc =>
  of_decide_eq_true (List.all_eq_true.mp h c hc)

theorem printable_hexDigit {d : Nat} (h : d < 16) : Printable (Text.hexDigit d) := by
  revert d
  decide

theorem printable_unitEscape (n : Nat) : ∀ c ∈ unitEscape n, Printable c := by
  have hdigit (m : Nat) := printable_hexDigit (Nat.mod_lt m (by decide : 0 < 16))
  simp only [unitEscape, hex_four, List.forall_mem_cons]
  exact ⟨by decide, by decide, hdigit _, hdigit _, hdigit _, hdigit _, nofun⟩

theorem printable_escape (c : Char) : ∀ d ∈ escape c, Printable d := by
  unfold escape
  split
  · rename_i letter hl
    unfold shortEscape? at hl
    split_ifs at hl <;> cases hl <;> exact forall_printable rfl
  · dsimp only
    split_ifs with hprintable hunit
    · exact List.forall_mem_singleton.mpr ⟨hprintable.1, Nat.le_of_lt_succ hprintable.2⟩
    · exact printable_unitEscape _
    · exact List.forall_mem_append.mpr ⟨printable_unitEscape _, printable_unitEscape _⟩

theorem printable_string (s : String) : ∀ c ∈ string s, Printable c := by
  intro c hc
  simp only [string, List.mem_append, List.mem_cons, List.mem_flatMap, List.not_mem_nil,
    or_false] at hc
  obtain (rfl | ⟨d, -, hd⟩) | rfl := hc
  · decide
  · exact printable_escape d c hd
  · decide

theorem printable_toDigits (n : Nat) : ∀ c ∈ Nat.toDigits 10 n, Printable c := fun c hc =>
  Number.forall_digit (by decide) (Number.digits_toDigits n c hc)

theorem printable_moreItems {items : List Value}
    (h : ∀ v ∈ items, ∀ c ∈ characters v, Printable c) :
    ∀ c ∈ moreItems items, Printable c := by
  induction items with
  | nil => exact forall_printable rfl
  | cons v items ih =>
    obtain ⟨hv, hitems⟩ := List.forall_mem_cons.mp h
    rw [moreItems_cons]
    simp only [List.forall_mem_cons, List.forall_mem_append]
    exact ⟨by decide, by decide, hv, ih hitems⟩

theorem printable_moreFields {fields : List (String × Value)}
    (h : ∀ field ∈ fields, ∀ c ∈ characters field.2, Printable c) :
    ∀ c ∈ moreFields fields, Printable c := by
  induction fields with
  | nil => exact forall_printable rfl
  | cons field fields ih =>
    obtain ⟨key, v⟩ := field
    obtain ⟨hv, hfields⟩ := List.forall_mem_cons.mp h
    rw [moreFields_cons]
    simp only [List.forall_mem_cons, List.forall_mem_append]
    exact ⟨by decide, by decide, printable_string key, by decide, by decide, hv, ih hfields⟩

/-- Whatever a plain value holds, only printable characters are written. -/
theorem printable_characters {v : Value} (hv : Plain v) : ∀ c ∈ characters v, Printable c := by
  induction hv with
  | null => exact forall_printable rfl
  | bool b => cases b <;> exact forall_printable rfl
  | @int n _ =>
    cases n with
    | ofNat n =>
      rw [Int.ofNat_eq_natCast, characters_ofNat]
      exact printable_toDigits n
    | negSucc n =>
      rw [characters_negSucc]
      exact List.forall_mem_cons.mpr ⟨by decide, printable_toDigits (n + 1)⟩
  | text s => exact printable_string s
  | @list items _ ih =>
    cases items with
    | nil => exact forall_printable rfl
    | cons v items =>
      obtain ⟨hv, hitems⟩ := List.forall_mem_cons.mp ih
      rw [characters_list]
      simp only [List.forall_mem_cons, List.forall_mem_append]
      exact ⟨by decide, hv, printable_moreItems hitems⟩
  | @dict fields _ _ ih =>
    cases fields with
    | nil => exact forall_printable rfl
    | cons field fields =>
      obtain ⟨key, v⟩ := field
      obtain ⟨hv, hfields⟩ := List.forall_mem_cons.mp ih
      rw [characters_dict]
      simp only [List.forall_mem_cons, List.forall_mem_append]
      exact ⟨by decide, printable_string key, by decide, by decide, hv,
        printable_moreFields hfields⟩

/-- The text of a plain value is printable ASCII and is read back as the value, with the entries of
dictionaries in their order. So different plain values have different texts. -/
theorem read?_text {v : Value} (hv : Plain v) :
    (∀ c ∈ (text v).toList, Printable c) ∧ read? (text v) = some v ∧
      ∀ w, Plain w → text w = text v → w = v := by
  have hread {v : Value} (hv : Plain v) : read? (text v) = some v := by
    have h : readValue _ (characters v ++ []) = some (v, []) :=
      hv.readsBack nofun (Nat.le_refl _)
    rw [List.append_nil] at h
    simp [read?, text, h, skip]
  refine ⟨?_, hread hv, ?_⟩
  · rw [text, String.toList_ofList]
    exact printable_characters hv
  · intro w hw he
    have h := hread hw
    rw [he, hread hv] at h
    exact (Option.some.inj h).symm

/-- A dictionary in a dictionary, with all ways to write a character. -/
def nested : Value :=
  .dict [("one\n\"two\"", .list [.int 0, .int (-120), .null, .bool true]),
    ("", .dict [("\x7fé𝄞", .text "a\\b")])]

theorem plain_nested : Plain nested := by
  refine .dict (by decide) ?_
  simp only [List.forall_mem_cons]
  refine ⟨.list ?_, .dict (by decide) ?_, nofun⟩
  · simp only [List.forall_mem_cons]
    exact ⟨.int (by decide), .int (by decide), .null, .bool true, nofun⟩
  · simp only [List.forall_mem_cons]
    exact ⟨.text _, nofun⟩

theorem nested_read : Plain nested ∧
    (∀ c ∈ (text nested).toList, Printable c) ∧ read? (text nested) = some nested ∧
      ∀ w, Plain w → text w = text nested → w = nested :=
  ⟨plain_nested, read?_text plain_nested⟩

end ParserGraph.Json
