import Cachic.Config.Guard

/-!
# What the configuration guard accepts

The recorded settings are those of the last line of each key, and a file without one of them, or
with a line that is neither blank, a comment nor a setting, is malformed
(`parse_eq_ok_iff`).

The guard compares less than that.  A format version is cut to 32 bits before it is compared, so
a file may record a version that does not fit and be accepted for the one it is congruent to;
`config_guard_exact` says for which files that makes a difference.  And a start that is forced
overrides settings that differ, not a file that is malformed: the error is returned before
`force` is looked at.

The file system is assumed to do what it is asked; the file is explicit state, absent or any
text.
-/

namespace Cachic.Guard

open CharText

/-! ## What a file records -/

def sizeKey : List Char := "slice_size".toList

def versionKey : List Char := "store_format_version".toList

/-- A line that is blank or a comment. -/
def skipped (raw : List Char) : Bool := trim raw = [] || (trim raw).head? = some '#'

/-- The number a line sets a key to. -/
def settingValue (key raw : List Char) : Option ℕ :=
  if skipped raw then none
  else (splitOnce '=' (trim raw)).bind fun parts =>
    if trim parts.1 = key then parseUnsigned (2 ^ 64) (trim parts.2) else none

/-- A line that may stand in the file. -/
def GoodLine (raw : List Char) : Prop :=
  skipped raw = true ∨ (settingValue sizeKey raw).isSome ∨ (settingValue versionKey raw).isSome

/-- The number the last line of a key sets it to. -/
def lastValue (key : List Char) (raws : List (List Char)) : Option ℕ :=
  (raws.filterMap (settingValue key)).getLast?

/-- A file without a bad line, and the last value of each setting in it. -/
structure Records (text : String) (size version : ℕ) : Prop where
  good : ∀ raw ∈ lines text.toList, GoodLine raw
  size : lastValue sizeKey (lines text.toList) = some size
  version : lastValue versionKey (lines text.toList) = some version

/-! ## What the parser makes of it -/

theorem lastValue_cons (key raw : List Char) (raws : List (List Char)) :
    lastValue key (raw :: raws) = (lastValue key raws).or (settingValue key raw) := by
  unfold lastValue
  cases hraw : settingValue key raw with
  | none => simp [hraw]
  | some n =>
      cases hlast : (raws.filterMap (settingValue key)).getLast? with
      | none => simp [hraw, List.getLast?_cons, hlast]
      | some m => simp [hraw, List.getLast?_cons, hlast]

theorem settingValue_skipped {raw : List Char} (h : skipped raw = true) (key : List Char) :
    settingValue key raw = none := if_pos h

theorem settingValue_of_split {raw : List Char} {parts : Option (List Char × List Char)}
    (hskip : skipped raw = false) (hsplit : splitOnce '=' (trim raw) = parts) (key : List Char) :
    settingValue key raw = parts.bind fun parts =>
      if trim parts.1 = key then parseUnsigned (2 ^ 64) (trim parts.2) else none := by
  rw [settingValue, hskip, hsplit]
  rfl

section Lines

variable {number : ℕ} {size version : Option ℕ} {raw key value : List Char}
  {raws : List (List Char)}

theorem parseLines_skipped (h : skipped raw = true) :
    parseLines number size version (raw :: raws) = parseLines (number + 1) size version raws := by
  rw [parseLines]
  exact if_pos h

theorem parseLines_not_split (hskip : skipped raw = false)
    (hsplit : splitOnce '=' (trim raw) = none) :
    parseLines number size version (raw :: raws) =
      .error (.malformed number (.notKeyValue (trim raw))) := by
  rw [parseLines]
  refine (if_neg (Bool.eq_false_iff.mp hskip)).trans ?_
  rw [hsplit]

theorem parseLines_split (hskip : skipped raw = false)
    (hsplit : splitOnce '=' (trim raw) = some (key, value)) :
    parseLines number size version (raw :: raws) =
      if trim key = sizeKey then
        parseValue number value >>= fun n => parseLines (number + 1) (some n) version raws
      else if trim key = versionKey then
        parseValue number value >>= fun n => parseLines (number + 1) size (some (n % 2 ^ 32)) raws
      else .error (.malformed number (.unknownKey (trim key))) := by
  rw [parseLines]
  refine (if_neg (Bool.eq_false_iff.mp hskip)).trans ?_
  rw [hsplit]
  dsimp only
  cases parseValue number value with
  | error e => rfl
  | ok n => rfl

theorem parseValue_of_some {n : ℕ} (h : parseUnsigned (2 ^ 64) (trim value) = some n) :
    parseValue number value = .ok n := by
  rw [parseValue, h]

theorem parseValue_of_none (h : parseUnsigned (2 ^ 64) (trim value) = none) :
    parseValue number value = .error (.malformed number (.notANumber (trim value))) := by
  rw [parseValue, h]

end Lines

theorem sizeKey_ne : sizeKey ≠ versionKey := by decide

/-- A line that may stand in the file is read and the rest follows; any other stops the
parser. -/
theorem parseLines_cons (number : ℕ) (size version : Option ℕ) (raw : List Char)
    (raws : List (List Char)) :
    (GoodLine raw ∧ parseLines number size version (raw :: raws) =
      parseLines (number + 1) ((settingValue sizeKey raw).or size)
        (((settingValue versionKey raw).map (· % 2 ^ 32)).or version) raws) ∨
    (¬GoodLine raw ∧ ∃ e, parseLines number size version (raw :: raws) = .error e) := by
  cases hskip : skipped raw with
  | true =>
      refine .inl ⟨.inl hskip, ?_⟩
      rw [settingValue_skipped hskip, settingValue_skipped hskip]
      exact parseLines_skipped hskip
  | false =>
      cases hsplit : splitOnce '=' (trim raw) with
      | none =>
          refine .inr ⟨?_, _, parseLines_not_split hskip hsplit⟩
          simp [GoodLine, hskip, settingValue_of_split hskip hsplit]
      | some parts =>
          obtain ⟨key, value⟩ := parts
          have hline := @parseLines_split number size version raw key value raws hskip hsplit
          simp only [hline, GoodLine, hskip, settingValue_of_split hskip hsplit, Option.bind_some]
          cases hvalue : parseUnsigned (2 ^ 64) (trim value) with
          | none =>
              rw [parseValue_of_none hvalue]
              refine .inr ⟨by simp, ?_⟩
              by_cases hsize : trim key = sizeKey
              · exact ⟨_, if_pos hsize⟩
              · by_cases hversion : trim key = versionKey
                · exact ⟨_, (if_neg hsize).trans (if_pos hversion)⟩
                · exact ⟨_, (if_neg hsize).trans (if_neg hversion)⟩
          | some n =>
              rw [parseValue_of_some hvalue]
              by_cases hsize : trim key = sizeKey
              · refine .inl ⟨by simp [hsize], ?_⟩
                simp only [hsize, sizeKey_ne, if_true, if_false]
                rfl
              · by_cases hversion : trim key = versionKey
                · refine .inl ⟨by simp [hversion], ?_⟩
                  simp only [hversion, sizeKey_ne.symm, if_true, if_false]
                  rfl
                · exact .inr ⟨by simp [hsize, hversion], _, (if_neg hsize).trans (if_neg hversion)⟩

/-- The settings that were read are the last of each key. -/
theorem parseLines_eq_ok_iff {raws : List (List Char)} {number : ℕ}
    {size version size' version' : Option ℕ} :
    parseLines number size version raws = .ok (size', version') ↔
      (∀ raw ∈ raws, GoodLine raw) ∧ (lastValue sizeKey raws).or size = size' ∧
        ((lastValue versionKey raws).map (· % 2 ^ 32)).or version = version' := by
  -- on the lines; the settings read so far are what a key without a line keeps
  induction raws generalizing number size version with
  | nil => simp [parseLines, lastValue]
  | cons raw raws ih =>
      have hlast : ∀ {β : Type} (f : ℕ → β) (a b : Option ℕ) (c : Option β),
          ((a.or b).map f).or c = (a.map f).or ((b.map f).or c) := by
        intro β f a b c
        cases a with
        | none => rfl
        | some a => rfl
      rcases parseLines_cons number size version raw raws with ⟨hgood, hline⟩ | ⟨hbad, e, hline⟩
      · rw [hline, ih, List.forall_mem_cons, lastValue_cons, lastValue_cons, Option.or_assoc, hlast]
        simp only [hgood, true_and]
      · rw [hline]
        refine iff_of_false (fun h => by cases h) fun h => hbad (h.1 raw List.mem_cons_self)

/-- The parser accepts the files that record both settings, and cuts the version. -/
theorem parse_eq_ok_iff {text : String} {found : StoredConfig} :
    StoredConfig.parse text = .ok found ↔
      ∃ version, Records text found.sliceSize version ∧
        found.storeFormatVersion = version % 2 ^ 32 := by
  constructor
  · intro h
    unfold StoredConfig.parse at h
    split at h
    · cases h
    · next size version hlines =>
        cases h
        obtain ⟨hgood, hsize, hversion⟩ := parseLines_eq_ok_iff.mp hlines
        rw [Option.or_none] at hsize hversion
        obtain ⟨version, hlast, rfl⟩ := Option.map_eq_some_iff.mp hversion
        exact ⟨version, ⟨hgood, hsize, hlast⟩, rfl⟩
    · cases h
  · rintro ⟨version, hrecords, hversion⟩
    have hlines : parseLines 1 none none (lines text.toList) =
        .ok (some found.sliceSize, some (version % 2 ^ 32)) :=
      parseLines_eq_ok_iff.mpr ⟨hrecords.good, by rw [hrecords.size]; rfl,
        by rw [hrecords.version]; rfl⟩
    rw [StoredConfig.parse, hlines, ← hversion]

/-! ## What the guard accepts -/

section Starts

variable {configured : StoredConfig} {file : Option String}

/-- A start may happen over no file, over one with the configured settings, and by force over
one that is not malformed. -/
theorem checkFile_ok_iff {force : Bool} :
    (checkFile configured force file).1 = .ok () ↔
      ∀ text, file = some text → ∃ found, StoredConfig.parse text = .ok found ∧
        (found = configured ∨ force = true) := by
  cases file with
  | none => simp [checkFile, check]
  | some text =>
      cases hparse : StoredConfig.parse text with
      | error e => simp [checkFile, check, hparse]
      | ok found =>
          by_cases hsame : found = configured
          · simp [checkFile, check, hparse, hsame]
          · cases force with
            | false => simp [checkFile, check, hparse, hsame]
            | true => simp [checkFile, check, hparse, hsame]

theorem checkFile_error {force : Bool} {e : GuardError}
    (h : (checkFile configured force file).1 = .error e) :
    (checkFile configured force file).2 = file := by
  unfold checkFile at h ⊢
  cases hcheck : check file configured force with
  | ok text =>
      rw [hcheck] at h
      cases h
  | error e' => rfl

/-- Afterwards the file records the configured settings. -/
theorem checkFile_again (hsize : configured.sliceSize < 2 ^ 64)
    (hversion : configured.storeFormatVersion < 2 ^ 32) {force : Bool}
    (h : (checkFile configured force file).1 = .ok ()) (force' : Bool) :
    (checkFile configured force' (checkFile configured force file).2).1 = .ok () := by
  unfold checkFile at h
  cases hcheck : check file configured force with
  | ok text =>
      have hfile : (checkFile configured force file).2 = some text := by rw [checkFile, hcheck]
      rw [hfile]
      rw [checkFile_ok_iff]
      rintro _ ⟨⟩
      exact ⟨configured, parse_of_check hsize hversion hcheck, .inl rfl⟩
  | error e =>
      rw [hcheck] at h
      cases h

/-- The exact condition of a start that is not forced. -/
theorem checkFile_unforced_iff :
    (checkFile configured false file).1 = .ok () ↔
      file = none ∨ ∃ text version, file = some text ∧
        Records text configured.sliceSize version ∧
        configured.storeFormatVersion = version % 2 ^ 32 := by
  rw [checkFile_ok_iff]
  cases file with
  | none => simp
  | some text =>
      constructor
      · intro h
        obtain ⟨found, hparse, rfl | hforce⟩ := h text rfl
        · obtain ⟨version, hrecords⟩ := parse_eq_ok_iff.mp hparse
          exact .inr ⟨text, version, rfl, hrecords⟩
        · cases hforce
      · rintro (hnone | ⟨text', version, ⟨⟩, hrecords⟩) _ ⟨⟩
        · cases hnone
        · exact ⟨configured, parse_eq_ok_iff.mpr ⟨version, hrecords⟩, .inl rfl⟩

end Starts

/-- **The configuration guard.**  What is written is read back.  A start that is not forced
happens iff there is no file or one that records the slice size and a version that is cut to the
configured one; so it compares the recorded settings exactly unless the file records that slice
size and a version too wide for 32 bits that is congruent to the configured one.  A refused
start leaves the file alone.  A forced start happens iff there is no file or one that records
some settings, and then one that is not forced may follow. -/
theorem config_guard_exact (file : Option String) (configured : StoredConfig)
    (hsize : configured.sliceSize < 2 ^ 64) (hversion : configured.storeFormatVersion < 2 ^ 32) :
    StoredConfig.parse configured.render = .ok configured ∧
    ((checkFile configured false file).1 = .ok () ↔
      file = none ∨ ∃ text version, file = some text ∧
        Records text configured.sliceSize version ∧
        configured.storeFormatVersion = version % 2 ^ 32) ∧
    (((checkFile configured false file).1 = .ok () ↔
        file = none ∨ ∃ text, file = some text ∧
          Records text configured.sliceSize configured.storeFormatVersion) ↔
      ∀ text version, file = some text → Records text configured.sliceSize version →
        configured.storeFormatVersion = version % 2 ^ 32 → version < 2 ^ 32) ∧
    (∀ force e, (checkFile configured force file).1 = .error e →
      (checkFile configured force file).2 = file) ∧
    ((checkFile configured true file).1 = .ok () ↔
      ∀ text, file = some text → ∃ size version, Records text size version) ∧
    ((checkFile configured true file).1 = .ok () →
      (checkFile configured false (checkFile configured true file).2).1 = .ok ()) := by
  refine ⟨parse_render hsize hversion, checkFile_unforced_iff, ?exact, fun _ _ => checkFile_error,
    ?forced, fun h => checkFile_again hsize hversion h false⟩
  case exact =>
    rw [checkFile_unforced_iff]
    constructor
    · rintro hexact text version rfl hrecords hcut
      obtain hnone | ⟨_, ⟨⟩, hsame⟩ := hexact.mp (.inr ⟨text, version, rfl, hrecords, hcut⟩)
      · cases hnone
      · exact Option.some.inj (hrecords.version.symm.trans hsame.version) ▸ hversion
    · refine fun hwide => or_congr_right (exists_congr fun text => ⟨?_, ?_⟩)
      · rintro ⟨version, hfile, hrecords, hcut⟩
        have hlt := hwide text version hfile hrecords hcut
        rw [Nat.mod_eq_of_lt hlt] at hcut
        exact ⟨hfile, hcut ▸ hrecords⟩
      · rintro ⟨hfile, hrecords⟩
        exact ⟨_, hfile, hrecords, (Nat.mod_eq_of_lt hversion).symm⟩
  case forced =>
    rw [checkFile_ok_iff]
    refine forall_congr' fun text => imp_congr_right fun _ => ?_
    constructor
    · rintro ⟨found, hparse, -⟩
      obtain ⟨version, hrecords, -⟩ := parse_eq_ok_iff.mp hparse
      exact ⟨found.sliceSize, version, hrecords⟩
    · rintro ⟨size, version, hrecords⟩
      exact ⟨⟨size, version % 2 ^ 32⟩, parse_eq_ok_iff.mpr ⟨version, hrecords, rfl⟩, .inr rfl⟩

namespace Scenario

/-- A file that records version 2 by a number that does not fit 32 bits. -/
def wideVersion : String := "store_format_version=4294967298\nslice_size=1048576\n"

def oneMebibyte : StoredConfig := { sliceSize := 1048576, storeFormatVersion := 2 }

/-- A file in another order, with a comment and white space. -/
def olderFile : String := "slice_size = 4096\n\n# note\nstore_format_version=1\n"

theorem records_olderFile : Records olderFile 4096 1 where
  good := by
    unfold GoodLine
    decide +kernel
  size := by decide +kernel
  version := by decide +kernel

/-- Other settings are on record: a start is refused unless it is forced, and the forced one
makes the next one possible. -/
theorem config_guard_exact_older :
    (checkFile oneMebibyte false (some olderFile)).1 ≠ .ok () ∧
      (checkFile oneMebibyte false (checkFile oneMebibyte true (some olderFile)).2).1 = .ok () := by
  obtain ⟨-, hunforced, -, -, hforced, hagain⟩ :=
    config_guard_exact (some olderFile) oneMebibyte (by decide) (by decide)
  constructor
  · intro hok
    obtain hnone | ⟨_, version, ⟨⟩, hrecords, -⟩ := hunforced.mp hok
    · cases hnone
    · have hsize := records_olderFile.size.symm.trans hrecords.size
      exact absurd (Option.some.inj hsize) (by decide)
  · refine hagain (hforced.mpr ?_)
    rintro _ ⟨⟩
    exact ⟨4096, 1, records_olderFile⟩

/-- The version on record is another, and the start is not refused; the file is empty, and a
forced start is. -/
theorem guard_accepts_wide_version :
    (lastValue versionKey (lines wideVersion.toList) = some 4294967298 ∧
      (checkFile oneMebibyte false (some wideVersion)).1 = .ok ()) ∧
    checkFile oneMebibyte true (some "") = (.error (.malformed 0 .missing), some "") := by
  decide +kernel

end Scenario

end Cachic.Guard
