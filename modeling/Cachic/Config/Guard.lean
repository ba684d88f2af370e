import Cachic.Lib.Text

/-!
# The on-disk configuration guard

`CACHE_DATA_DIR/CONFIG` records the settings the stored data depends on.  A start
whose settings differ from the recorded ones is refused, unless it is forced: then
the file is rewritten, and the slices stored under the old settings stay where
they are.
-/

namespace Cachic.Guard

open CharText

/-- The version of the on-disk format. -/
def storeFormatVersion : ℕ := 2

/-- The settings the stored data depends on. -/
structure StoredConfig where
  sliceSize : ℕ
  storeFormatVersion : ℕ
  deriving DecidableEq, Repr

inductive Malformed
  | notKeyValue (line : List Char)
  | notANumber (text : List Char)
  | unknownKey (key : List Char)
  | missing
  deriving DecidableEq, Repr

inductive GuardError
  | malformed (line : ℕ) (reason : Malformed)
  | mismatch (found configured : StoredConfig)
  deriving DecidableEq, Repr

/-- The lines of the file. -/
def StoredConfig.renderLines (config : StoredConfig) : List (List Char) :=
  ["# cachic cache directory configuration.".toList,
    "# Written automatically. Changing these by hand will not migrate the stored data.".toList,
    "store_format_version".toList ++ '=' :: decimal config.storeFormatVersion,
    "slice_size".toList ++ '=' :: decimal config.sliceSize]

def StoredConfig.render (config : StoredConfig) : String :=
  String.ofList (config.renderLines.flatMap fun line => line ++ ['\n'])

/-- The value of one setting. -/
def parseValue (number : ℕ) (value : List Char) : Except GuardError ℕ :=
  match parseUnsigned (2 ^ 64) (trim value) with
  | some n => .ok n
  | none => .error (.malformed number (.notANumber (trim value)))

/-- Read the lines from line `number` on, given the settings read so far. -/
def parseLines : ℕ → Option ℕ → Option ℕ → List (List Char) →
    Except GuardError (Option ℕ × Option ℕ)
  | _, sliceSize, version, [] => .ok (sliceSize, version)
  | number, sliceSize, version, raw :: rest =>
      let line := trim raw
      if line = [] || line.head? = some '#' then parseLines (number + 1) sliceSize version rest
      else
        match splitOnce '=' line with
        | none => .error (.malformed number (.notKeyValue line))
        | some (key, value) =>
            if trim key = "slice_size".toList then
              match parseValue number value with
              | .error e => .error e
              | .ok n => parseLines (number + 1) (some n) version rest
            else if trim key = "store_format_version".toList then
              match parseValue number value with
              | .error e => .error e
              | .ok n => parseLines (number + 1) sliceSize (some (n % 2 ^ 32)) rest
            else .error (.malformed number (.unknownKey (trim key)))

def StoredConfig.parse (text : String) : Except GuardError StoredConfig :=
  match parseLines 1 none none (lines text.toList) with
  | .error e => .error e
  | .ok (some sliceSize, some version) =>
      .ok { sliceSize := sliceSize, storeFormatVersion := version }
  | .ok _ => .error (.malformed 0 .missing)

/-- Check the guard: the file's content afterwards, or why the process may not
start.  `file` is the content found, `none` when there is no file. -/
def check (file : Option String) (configured : StoredConfig) (force : Bool) :
    Except GuardError String :=
  match file with
  | none => .ok configured.render
  | some text =>
      match StoredConfig.parse text with
      | .error e => .error e
      | .ok found =>
          if found = configured then .ok text
          else if !force then .error (.mismatch found configured)
          else .ok configured.render

/-- The check on the file itself: whether the process may start, and the file afterwards.  Only
a process that may start leaves another content behind. -/
def checkFile (configured : StoredConfig) (force : Bool) (file : Option String) :
    Except GuardError Unit × Option String :=
  match check file configured force with
  | .ok text => (.ok (), some text)
  | .error e => (.error e, file)

/-! ## Reading back what was written -/

/-- A comment line is skipped. -/
theorem parseLines_comment {number : ℕ} {size version : Option ℕ} {line : List Char}
    {rest : List (List Char)} (h : (trim line).head? = some '#') :
    parseLines number size version (line :: rest) =
      parseLines (number + 1) size version rest := by
  simp [parseLines, h]

/-- A `key=number` line is cut where it should be. -/
theorem setting_line {key : List Char} {n : ℕ} (hkey : '=' ∉ key)
    (hspace : ∀ c ∈ key, isSpace c = false) :
    trim (key ++ '=' :: decimal n) = key ++ '=' :: decimal n ∧
      splitOnce '=' (key ++ '=' :: decimal n) = some (key, decimal n) := by
  refine ⟨trim_of_noSpace fun c hc => ?_, splitOnce_eq_some_iff.mpr ⟨rfl, hkey⟩⟩
  rcases List.mem_append.mp hc with hin | hin
  · exact hspace c hin
  · rcases List.mem_cons.mp hin with rfl | hdigit
    · decide
    · exact isSpace_of_isDigit (isDigit_of_mem_decimal hdigit)

theorem parseValue_decimal {number n : ℕ} (h : n < 2 ^ 64) :
    parseValue number (decimal n) = .ok n := by
  simp only [parseValue, trim_decimal, parseUnsigned_decimal h]

/-- A setting's line is read as that setting. -/
theorem parseLines_setting {number n : ℕ} {size version : Option ℕ} {key : List Char}
    {rest : List (List Char)} (hn : n < 2 ^ 64) (hhead : ∃ c, key.head? = some c ∧ c ≠ '#')
    (hkey : '=' ∉ key) (hspace : (key.all fun c => !isSpace c) = true) :
    parseLines number size version ((key ++ '=' :: decimal n) :: rest) =
      if key = "slice_size".toList then parseLines (number + 1) (some n) version rest
      else if key = "store_format_version".toList then
        parseLines (number + 1) size (some (n % 2 ^ 32)) rest
      else .error (.malformed number (.unknownKey key)) := by
  have hplain : ∀ c ∈ key, isSpace c = false := fun c hc => by
    simpa using List.all_eq_true.mp hspace c hc
  obtain ⟨htrim, hsplit⟩ := @setting_line key n hkey hplain
  obtain ⟨c, hc, hcomment⟩ := hhead
  have hskip : ¬ ((key ++ '=' :: decimal n = []) ∨
      (key ++ '=' :: decimal n).head? = some '#') := by
    simp [hc, hcomment]
  rw [parseLines]
  simp only [htrim, Bool.or_eq_true, decide_eq_true_eq, hskip, if_false, hsplit,
    trim_of_noSpace hplain, parseValue_decimal hn]

/-- Neither line ending occurs in a setting's line. -/
theorem not_mem_setting {key : List Char} {n : ℕ} {c : Char} (hkey : c ∉ key) (hsep : c ≠ '=')
    (hdigit : c.isDigit = false) : c ∉ key ++ '=' :: decimal n := by
  simp [hkey, hsep, not_mem_decimal hdigit]

/-- The lines of a rendered file. -/
theorem lines_render (config : StoredConfig) :
    lines config.render.toList = config.renderLines := by
  rw [StoredConfig.render, String.toList_ofList]
  apply lines_flatMap
  intro line hline
  simp only [StoredConfig.renderLines, List.mem_cons, List.not_mem_nil, or_false] at hline
  rcases hline with rfl | rfl | rfl | rfl
  · decide
  · decide
  · exact ⟨not_mem_setting (by decide) (by decide) (by decide),
      not_mem_setting (by decide) (by decide) (by decide)⟩
  · exact ⟨not_mem_setting (by decide) (by decide) (by decide),
      not_mem_setting (by decide) (by decide) (by decide)⟩

/-- **The guard reads back the settings it wrote.** -/
theorem parse_render {config : StoredConfig} (hsize : config.sliceSize < 2 ^ 64)
    (hversion : config.storeFormatVersion < 2 ^ 32) :
    StoredConfig.parse config.render = .ok config := by
  have hversionValue : config.storeFormatVersion % 2 ^ 32 = config.storeFormatVersion :=
    Nat.mod_eq_of_lt hversion
  have hwide : config.storeFormatVersion < 2 ^ 64 := by omega
  rw [StoredConfig.parse, lines_render, StoredConfig.renderLines, parseLines_comment (by decide),
    parseLines_comment (by decide),
    parseLines_setting hwide ⟨'s', by decide, by decide⟩ (by decide) (by decide),
    if_neg (by decide), if_pos rfl,
    parseLines_setting hsize ⟨'s', by decide, by decide⟩ (by decide) (by decide),
    if_pos rfl, hversionValue]
  rfl

/-- A start that is not forced keeps the recorded settings, and a forced one
records its own: afterwards the file reads as the configured settings. -/
theorem parse_of_check {file : Option String} {configured : StoredConfig} {force : Bool}
    {text : String} (hsize : configured.sliceSize < 2 ^ 64)
    (hversion : configured.storeFormatVersion < 2 ^ 32)
    (h : check file configured force = .ok text) : StoredConfig.parse text = .ok configured := by
  have hrender := parse_render hsize hversion
  unfold check at h
  cases file with
  | none =>
      cases h
      exact hrender
  | some old =>
      cases hparse : StoredConfig.parse old with
      | error e => simp [hparse] at h
      | ok found =>
          simp only [hparse] at h
          split at h
          · rename_i heq
            cases h
            rw [hparse, heq]
          · split at h
            · cases h
            · cases h
              exact hrender

/-- A start over a file that records other settings has to be forced. -/
theorem eq_of_check {file : String} {found configured : StoredConfig} {force : Bool}
    {text : String} (hfound : StoredConfig.parse file = .ok found)
    (h : check (some file) configured force = .ok text) :
    found = configured ∨ force = true := by
  unfold check at h
  simp only [hfound] at h
  split at h
  · exact .inl ‹_›
  · split at h
    · cases h
    · rename_i hforce
      exact .inr (by simpa using hforce)

end Cachic.Guard
