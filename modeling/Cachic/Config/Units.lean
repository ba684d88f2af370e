import Cachic.Headers

/-!
# Sizes and durations

The configuration spells sizes and durations as a number and a unit.  A unit is a row of a
table, looked up in lower case; the two parsers differ in their table only.

`Spells` is the grammar, and `parse_units_exact` says that the parsers follow it: what it
spells is read with its exact value or, if that does not fit 64 bits, refused as an overflow,
and nothing else is read.
-/

namespace Cachic.Units

open CharText

/-- Why a size or duration could not be parsed. -/
inductive ParseError
  | empty
  | malformed (text : List Char)
  | unknownUnit (input unit : List Char)
  | overflow (text : List Char)
  deriving DecidableEq, Repr

/-- Split a value into its number and its unit. -/
def split (input : List Char) : Except ParseError (ℕ × List Char) :=
  let trimmed := trim input
  if trimmed = [] then .error .empty
  else
    let digits := trimmed.takeWhile Char.isDigit
    if digits = [] then .error (.malformed trimmed)
    else
      match parseUnsigned (2 ^ 64) digits with
      | none => .error (.overflow trimmed)
      | some value => .ok (value, trim (trimmed.dropWhile Char.isDigit))

/-- Names of units, in lower case, and what they stand for. -/
abbrev UnitTable := List (List Char × ℕ)

/-- Binary multiples, and decimal ones for those who write `KB`. -/
def sizeUnits : UnitTable :=
  [("".toList, 1), ("b".toList, 1),
    ("k".toList, 1 <<< 10), ("kib".toList, 1 <<< 10),
    ("m".toList, 1 <<< 20), ("mib".toList, 1 <<< 20),
    ("g".toList, 1 <<< 30), ("gib".toList, 1 <<< 30),
    ("t".toList, 1 <<< 40), ("tib".toList, 1 <<< 40),
    ("kb".toList, 1000), ("mb".toList, 1000000), ("gb".toList, 1000000000),
    ("tb".toList, 1000000000000)]

/-- Seconds. -/
def durationUnits : UnitTable :=
  [("".toList, 1), ("s".toList, 1), ("sec".toList, 1), ("secs".toList, 1),
    ("m".toList, 60), ("min".toList, 60), ("mins".toList, 60),
    ("h".toList, 3600), ("hr".toList, 3600), ("hrs".toList, 3600),
    ("d".toList, 86400), ("day".toList, 86400), ("days".toList, 86400),
    ("w".toList, 604800), ("week".toList, 604800), ("weeks".toList, 604800)]

/-- A number times its unit. -/
def parseWith (units : UnitTable) (input : List Char) : Except ParseError ℕ :=
  match split input with
  | .error e => .error e
  | .ok (value, unit) =>
      match units.lookup (asciiLower unit) with
      | none => .error (.unknownUnit (trim input) (asciiLower unit))
      | some multiplier =>
          if value * multiplier < 2 ^ 64 then .ok (value * multiplier)
          else .error (.overflow (trim input))

/-- A size in bytes. -/
def parseSize (input : String) : Except ParseError ℕ := parseWith sizeUnits input.toList

/-- A duration in seconds. -/
def parseDuration (input : String) : Except ParseError ℕ := parseWith durationUnits input.toList

/-- The units a size is rendered in, largest first. -/
def formatUnits : List (List Char × ℕ) :=
  [("TiB".toList, 1 <<< 40), ("GiB".toList, 1 <<< 30), ("MiB".toList, 1 <<< 20),
    ("KiB".toList, 1 <<< 10)]

/-- Render a byte count in the largest unit it is a multiple of. -/
def formatSize (bytes : ℕ) : String :=
  match formatUnits.find? fun unit => unit.2 ≤ bytes && bytes % unit.2 == 0 with
  | some (name, multiplier) => String.ofList (decimal (bytes / multiplier) ++ ' ' :: name)
  | none => String.ofList (decimal bytes ++ [' ', 'B'])

/-! ## The grammar -/

/-- White space, digits, white space, a unit of the table in any case, and white space. -/
def Spells (units : UnitTable) (input : List Char) (value multiplier : ℕ) : Prop :=
  ∃ before digits gap unit after, input = before ++ (digits ++ (gap ++ (unit ++ after))) ∧
    (∀ c ∈ before, isSpace c = true) ∧ (∀ c ∈ gap, isSpace c = true) ∧
    (∀ c ∈ after, isSpace c = true) ∧ Denotes digits value ∧
    units.lookup (asciiLower unit) = some multiplier

/-- The names of a table are made of small letters. -/
def Lettered (units : UnitTable) : Prop :=
  ∀ unit ∈ units, ∀ c ∈ unit.1, 97 ≤ c.toNat ∧ c.toNat ≤ 122

instance (units : UnitTable) : Decidable (Lettered units) :=
  have (unit : List Char × ℕ) : Decidable (∀ c ∈ unit.1, 97 ≤ c.toNat ∧ c.toNat ≤ 122) :=
    List.decidableBAll _ _
  List.decidableBAll _ _

theorem lettered_sizeUnits : Lettered sizeUnits := by decide

theorem lettered_durationUnits : Lettered durationUnits := by decide

section Grammar

variable {units : UnitTable} {input digits unit rest : List Char} {value multiplier : ℕ}

/-- In a unit of the table there is neither white space nor a digit. -/
theorem Lettered.of_lookup (h : Lettered units)
    (hlookup : units.lookup (asciiLower unit) = some multiplier) {c : Char} (hc : c ∈ unit) :
    isSpace c = false ∧ c.isDigit = false := by
  obtain ⟨rows, rows', rfl, -⟩ := List.lookup_eq_some_iff.mp hlookup
  have hletter := h (asciiLower unit, multiplier) (by simp) c.toLower (List.mem_map_of_mem hc)
  rw [← isSpace_toLower c, ← isDigit_toLower c]
  exact ⟨isSpace_of_letter (by omega) hletter.2, isDigit_of_letter (by omega)⟩

/-- What is left of a spelling without the white space around it: the digits, and behind them
the unit. -/
theorem Spells.trim_eq (hunits : Lettered units) (h : Spells units input value multiplier) :
    ∃ digits rest, trim input = digits ++ rest ∧ Denotes digits value ∧
      (∀ c ∈ rest.head?, c.isDigit = false) ∧
      units.lookup (asciiLower (trim rest)) = some multiplier := by
  obtain ⟨before, digits, gap, unit, after, rfl, hbefore, hgap, hafter, hdigits, hunit⟩ := h
  have hplain : ∀ c ∈ unit, isSpace c = false ∧ c.isDigit = false := fun c hc =>
    hunits.of_lookup hunit hc
  have hspace : ∀ c, isSpace c = true → c.isDigit = false := by
    intro c hc
    rw [← Bool.not_eq_true]
    intro hdigit
    rw [isSpace_of_isDigit hdigit] at hc
    cases hc
  have hhead : ∀ rest c, c ∈ (digits ++ rest).head? → isSpace c = false := by
    intro rest c hc
    rw [List.head?_append_of_ne_nil _ hdigits.1] at hc
    exact hdigits.noSpace (List.mem_of_mem_head? hc)
  by_cases hnone : unit = []
  · -- without a unit all the rest is white space
    subst hnone
    refine ⟨digits, [], ?_, hdigits, nofun, hunit⟩
    rw [List.append_nil]
    refine hdigits.trim_eq ⟨before, gap ++ after, by simp, hbefore, fun c hc => ?_⟩
    exact (List.mem_append.mp hc).elim (hgap c) (hafter c)
  · refine ⟨digits, gap ++ unit, ?_, hdigits, fun c hc => ?_, ?_⟩
    · refine Padded.trim_eq ⟨before, after, by simp, hbefore, hafter⟩ (hhead _) fun c hc => ?_
      rw [← List.append_assoc, List.getLast?_append_of_ne_nil _ hnone] at hc
      exact (hplain c (List.mem_of_getLast? hc)).1
    · rcases List.mem_append.mp (List.mem_of_mem_head? hc) with hin | hin
      · exact hspace c (hgap c hin)
      · exact (hplain c hin).2
    · have htrim : trim (gap ++ unit) = unit :=
        Padded.trim_of_noSpace ⟨gap, [], by simp, hgap, by simp⟩ fun c hc => (hplain c hc).1
      rw [htrim, hunit]

/-- The digits a text starts with are the digits before anything else. -/
theorem takeWhile_dropWhile_digits (hdigits : Denotes digits value)
    (hrest : ∀ c ∈ rest.head?, c.isDigit = false) :
    (digits ++ rest).takeWhile Char.isDigit = digits ∧
      (digits ++ rest).dropWhile Char.isDigit = rest := by
  rw [List.takeWhile_append_of_pos hdigits.2.1, List.dropWhile_append_of_pos hdigits.2.1]
  cases rest with
  | nil => simp
  | cons c rest => simp [hrest c rfl]

/-- The number and the unit of a text that starts with digits. -/
theorem split_of_trim (htrim : trim input = digits ++ rest) (hdigits : Denotes digits value)
    (hrest : ∀ c ∈ rest.head?, c.isDigit = false) :
    split input = if value < 2 ^ 64 then .ok (value, trim rest)
      else .error (.overflow (trim input)) := by
  obtain ⟨htake, hdrop⟩ := takeWhile_dropWhile_digits hdigits hrest
  have hne : digits ++ rest ≠ [] := by simp [hdigits.1]
  simp only [split, htrim, htake, hdrop, if_neg hne, if_neg hdigits.1]
  split_ifs with hlt
  · rw [(parseUnsigned_unsigned hdigits.head_ne_plus).mpr ⟨hdigits, hlt⟩]
  · cases hparse : parseUnsigned (2 ^ 64) digits with
    | none => rfl
    | some n =>
        obtain ⟨hn, hword⟩ := (parseUnsigned_unsigned hdigits.head_ne_plus).mp hparse
        exact absurd (hdigits.2.2.symm.trans hn.2.2 ▸ hword) hlt

/-- What was split was spelled. -/
theorem exists_of_split (h : split input = .ok (value, unit)) :
    value < 2 ^ 64 ∧ ∃ before digits gap after,
      input = before ++ (digits ++ (gap ++ (unit ++ after))) ∧
      (∀ c ∈ before, isSpace c = true) ∧ (∀ c ∈ gap, isSpace c = true) ∧
      (∀ c ∈ after, isSpace c = true) ∧ Denotes digits value := by
  obtain ⟨before, after, hinput, hbefore, hafter⟩ := padded_trim input
  unfold split at h
  simp only at h
  split_ifs at h with hempty hnone
  cases hparse : parseUnsigned (2 ^ 64) ((trim input).takeWhile Char.isDigit) with
  | none =>
      rw [hparse] at h
      cases h
  | some n =>
      rw [hparse] at h
      cases h
      have hhead : ((trim input).takeWhile Char.isDigit).head? ≠ some '+' := by
        intro hplus
        have hdigit := List.mem_takeWhile_imp (List.mem_of_mem_head? hplus)
        cases hdigit
      obtain ⟨hdigits, hlt⟩ := (parseUnsigned_unsigned hhead).mp hparse
      obtain ⟨gap, after', hrest, hgap, hafter'⟩ :=
        padded_trim ((trim input).dropWhile Char.isDigit)
      refine ⟨hlt, before, _, gap, after' ++ after, ?_, hbefore, hgap, fun c hc => ?_, hdigits⟩
      · calc input
            = before ++ (trim input ++ after) := hinput
          _ = before ++ (((trim input).takeWhile Char.isDigit ++
                (trim input).dropWhile Char.isDigit) ++ after) := by
              rw [List.takeWhile_append_dropWhile]
          _ = before ++ ((trim input).takeWhile Char.isDigit ++
                ((gap ++ (trim ((trim input).dropWhile Char.isDigit) ++ after')) ++ after)) := by
              rw [← hrest, List.append_assoc]
          _ = _ := by simp only [List.append_assoc]
      · exact (List.mem_append.mp hc).elim (hafter' c) (hafter c)

/-- What is spelled is read, with its exact value or as an overflow. -/
theorem Spells.parseWith_eq (hunits : Lettered units) (h : Spells units input value multiplier) :
    parseWith units input =
      if value < 2 ^ 64 ∧ value * multiplier < 2 ^ 64 then .ok (value * multiplier)
      else .error (.overflow (trim input)) := by
  obtain ⟨digits, rest, htrim, hdigits, hrest, hunit⟩ := h.trim_eq hunits
  rw [parseWith, split_of_trim htrim hdigits hrest]
  by_cases hvalue : value < 2 ^ 64
  · rw [if_pos hvalue]
    simp only [hunit, hvalue, true_and]
  · rw [if_neg hvalue, if_neg fun hboth => hvalue hboth.1]

/-- Nothing else is read. -/
theorem spells_of_parseWith {n : ℕ} (h : parseWith units input = .ok n) :
    ∃ value multiplier, Spells units input value multiplier ∧ value < 2 ^ 64 ∧
      value * multiplier = n ∧ n < 2 ^ 64 := by
  unfold parseWith at h
  split at h
  · cases h
  · next value unit hsplit =>
      obtain ⟨hlt, before, digits, gap, after, hinput, hbefore, hgap, hafter, hdigits⟩ :=
        exists_of_split hsplit
      split at h
      · cases h
      · next multiplier hunit =>
          split_ifs at h with hword
          cases h
          exact ⟨value, multiplier, ⟨before, digits, gap, unit, after, hinput, hbefore, hgap,
            hafter, hdigits, hunit⟩, hlt, rfl, hword⟩

theorem parseWith_eq_ok_iff (hunits : Lettered units) {n : ℕ} :
    parseWith units input = .ok n ↔
      ∃ value multiplier, Spells units input value multiplier ∧ value < 2 ^ 64 ∧
        value * multiplier = n ∧ n < 2 ^ 64 := by
  refine ⟨spells_of_parseWith, ?_⟩
  rintro ⟨value, multiplier, h, hvalue, rfl, hword⟩
  rw [h.parseWith_eq hunits, if_pos ⟨hvalue, hword⟩]

theorem parseWith_overflow (hunits : Lettered units) (h : Spells units input value multiplier)
    (hwide : 2 ^ 64 ≤ value ∨ 2 ^ 64 ≤ value * multiplier) :
    parseWith units input = .error (.overflow (trim input)) := by
  rw [h.parseWith_eq hunits, if_neg]
  omega

end Grammar

/-! ## Sizes that were rendered -/

/-- A size is rendered as a number and a unit it is a multiple of. -/
theorem formatSize_eq (n : ℕ) :
    ∃ name multiplier, (formatSize n).toList = decimal (n / multiplier) ++ ' ' :: name ∧
      n / multiplier * multiplier = n ∧
      sizeUnits.lookup (asciiLower name) = some multiplier := by
  unfold formatSize
  split
  · next name multiplier hfind =>
      have hrow := List.mem_of_find?_eq_some hfind
      have hmultiple := List.find?_some hfind
      simp only [Bool.and_eq_true, decide_eq_true_eq, beq_iff_eq] at hmultiple
      refine ⟨name, multiplier, String.toList_ofList, ?_, ?_⟩
      · exact Nat.div_mul_cancel (Nat.dvd_of_mod_eq_zero hmultiple.2)
      · have hknown : ∀ unit ∈ formatUnits, sizeUnits.lookup (asciiLower unit.1) = some unit.2 := by
          decide
        exact hknown _ hrow
  · refine ⟨['B'], 1, ?_, by simp, by decide⟩
    rw [String.toList_ofList, Nat.div_one]

theorem parseSize_formatSize {n : ℕ} (h : n < 2 ^ 64) : parseSize (formatSize n) = .ok n := by
  obtain ⟨name, multiplier, htext, hmultiple, hunit⟩ := formatSize_eq n
  have hspells : Spells sizeUnits (formatSize n).toList (n / multiplier) multiplier :=
    ⟨[], decimal (n / multiplier), [' '], name, [], by simp [htext], by simp,
      List.forall_mem_singleton.mpr (by decide), by simp, denotes_decimal _, hunit⟩
  have hvalue : n / multiplier < 2 ^ 64 := lt_of_le_of_lt (Nat.div_le_self n multiplier) h
  rw [parseSize, hspells.parseWith_eq lettered_sizeUnits, hmultiple, if_pos ⟨hvalue, h⟩]

/-- **Sizes and durations are parsed exactly.**  A size that was rendered is read back.  A text
is read as `n` bytes, or as `n` seconds, iff it spells a number and a unit whose exact product
is `n`, and both fit 64 bits; and one that spells a number or a product that does not fit is
refused as an overflow. -/
theorem parse_units_exact :
    (∀ n, n < 2 ^ 64 → parseSize (formatSize n) = .ok n) ∧
    (∀ (s : String) (n : ℕ), parseSize s = .ok n ↔
      ∃ value multiplier, Spells sizeUnits s.toList value multiplier ∧ value < 2 ^ 64 ∧
        value * multiplier = n ∧ n < 2 ^ 64) ∧
    (∀ (s : String) (n : ℕ), parseDuration s = .ok n ↔
      ∃ value multiplier, Spells durationUnits s.toList value multiplier ∧ value < 2 ^ 64 ∧
        value * multiplier = n ∧ n < 2 ^ 64) ∧
    (∀ (s : String) (value multiplier : ℕ), Spells sizeUnits s.toList value multiplier →
      2 ^ 64 ≤ value ∨ 2 ^ 64 ≤ value * multiplier →
      parseSize s = .error (.overflow (trim s.toList))) ∧
    ∀ (s : String) (value multiplier : ℕ), Spells durationUnits s.toList value multiplier →
      2 ^ 64 ≤ value ∨ 2 ^ 64 ≤ value * multiplier →
      parseDuration s = .error (.overflow (trim s.toList)) :=
  ⟨fun _ => parseSize_formatSize,
    fun _ _ => parseWith_eq_ok_iff lettered_sizeUnits,
    fun _ _ => parseWith_eq_ok_iff lettered_durationUnits,
    fun _ _ _ => parseWith_overflow lettered_sizeUnits,
    fun _ _ _ => parseWith_overflow lettered_durationUnits⟩

example : parseSize " 1000 g" = .ok 1073741824000 := by decide +kernel

end Cachic.Units
