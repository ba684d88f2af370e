import Mathlib.Tactic
import Mathlib.Data.List.DropRight

/-!
# Text as lists of characters

The string operations a systems program uses on header values, host names and
small configuration files: trimming, cutting at a separator, splitting into
lines, reading a decimal number.  All of them are structural recursions on
`List Char`, so they evaluate, and each comes with the lemma that says when it
returns what.

The conventions are those of the Rust standard library.  Trimming removes every
character with the Unicode `White_Space` property; a number may carry a leading
`+` and is refused when it does not fit its type; a line ends in `\n` or
`\r\n`, and a final line ending does not start another line.
-/

namespace CharText

/-! ## Trimming -/

/-- The Unicode `White_Space` property. -/
def isSpace (c : Char) : Bool :=
  (9 ≤ c.toNat && c.toNat ≤ 13) || c.toNat == 0x20 || c.toNat == 0x85 ||
    c.toNat == 0xA0 || c.toNat == 0x1680 ||
    (0x2000 ≤ c.toNat && c.toNat ≤ 0x200A) || c.toNat == 0x2028 ||
    c.toNat == 0x2029 || c.toNat == 0x202F || c.toNat == 0x205F || c.toNat == 0x3000

/-- Remove white space on both sides. -/
def trim (text : List Char) : List Char :=
  (text.dropWhile isSpace).rdropWhile isSpace

/-- What is dropped on the right is dropped for a reason. -/
theorem rdropWhile_append (p : Char → Bool) (text : List Char) :
    ∃ dropped, text = text.rdropWhile p ++ dropped ∧ ∀ c ∈ dropped, p c = true := by
  refine ⟨(text.reverse.takeWhile p).reverse, ?_, fun c hc => ?_⟩
  · rw [List.rdropWhile, ← List.reverse_append, List.takeWhile_append_dropWhile,
      List.reverse_reverse]
  · exact List.mem_takeWhile_imp (List.mem_reverse.mp hc)

/-- A text with nothing but white space around `core`. -/
def Padded (core text : List Char) : Prop :=
  ∃ before after, text = before ++ (core ++ after) ∧ (∀ c ∈ before, isSpace c = true) ∧
    ∀ c ∈ after, isSpace c = true

/-- Trimming removes white space and keeps the rest together. -/
theorem padded_trim (text : List Char) : Padded (trim text) text := by
  obtain ⟨after, hafter, hspace⟩ := rdropWhile_append isSpace (text.dropWhile isSpace)
  refine ⟨text.takeWhile isSpace, after, ?_, fun c hc => List.mem_takeWhile_imp hc, hspace⟩
  rw [trim, ← hafter, List.takeWhile_append_dropWhile]

variable {text before after : List Char} {c sep : Char} {n bound : ℕ}

theorem mem_of_mem_trim (h : c ∈ trim text) : c ∈ text := by
  obtain ⟨before, after, htext, -⟩ := padded_trim text
  rw [htext]
  simp [h]

theorem getLast?_trim (text : List Char) : ∀ c ∈ (trim text).getLast?, isSpace c = false := by
  intro c hc
  have hne : trim text ≠ [] := by
    rintro hnil
    rw [hnil] at hc
    cases hc
  rw [Option.mem_def, List.getLast?_eq_some_getLast hne, Option.some.injEq] at hc
  have hlast := List.rdropWhile_last_not isSpace _ hne
  rw [← hc]
  exact Bool.eq_false_of_not_eq_true hlast

theorem head?_trim (text : List Char) : ∀ c ∈ (trim text).head?, isSpace c = false := by
  intro c hc
  obtain ⟨dropped, hdropped, -⟩ := rdropWhile_append isSpace (text.dropWhile isSpace)
  have hhead : (text.dropWhile isSpace).head? = some c := by
    obtain ⟨rest, hrest⟩ := List.head?_eq_some_iff.mp hc
    rw [hdropped]
    show (trim text ++ dropped).head? = some c
    rw [hrest]
    rfl
  have hnot := List.head?_dropWhile_not isSpace text
  rw [hhead] at hnot
  exact hnot

/-- Trimming finds what stands between the white space. -/
theorem Padded.trim_eq {core : List Char} (h : Padded core text)
    (hhead : ∀ c ∈ core.head?, isSpace c = false) (hlast : ∀ c ∈ core.getLast?, isSpace c = false) :
    trim text = core := by
  obtain ⟨before, after, rfl, hbefore, hafter⟩ := h
  rw [trim, List.dropWhile_append_of_pos hbefore]
  cases core with
  | nil =>
      have hnil : after.dropWhile isSpace = [] := List.dropWhile_eq_nil_iff.mpr hafter
      rw [List.nil_append, hnil]
      rfl
  | cons c rest =>
      have hdrop : (c :: rest ++ after).dropWhile isSpace = c :: rest ++ after := by
        simp [hhead c (by simp)]
      have hreverse : ∀ d ∈ after.reverse, isSpace d = true := fun d hd =>
        hafter d (List.mem_reverse.mp hd)
      rw [hdrop, List.rdropWhile, List.reverse_append, List.dropWhile_append_of_pos hreverse]
      show (c :: rest).rdropWhile isSpace = c :: rest
      rw [List.rdropWhile_eq_self_iff]
      intro hne
      simp [hlast _ (List.getLast?_eq_some_getLast hne)]

/-- Text without any white space is its own trimming, and that of its paddings. -/
theorem Padded.trim_of_noSpace {core : List Char} (h : Padded core text)
    (hcore : ∀ c ∈ core, isSpace c = false) : trim text = core :=
  h.trim_eq (fun c hc => hcore c (List.mem_of_mem_head? hc))
    (fun c hc => hcore c (List.mem_of_getLast? hc))

theorem padded_self (text : List Char) : Padded text text := ⟨[], [], by simp, by simp, by simp⟩

theorem trim_of_noSpace (h : ∀ c ∈ text, isSpace c = false) :
    trim text = text := (padded_self text).trim_of_noSpace h

/-! ## Cutting -/

/-- What follows `start`, when the text begins with it. -/
def stripStart (start text : List Char) : Option (List Char) :=
  if start.isPrefixOf text then some (text.drop start.length) else none

theorem stripStart_eq_some_iff {start rest : List Char} :
    stripStart start text = some rest ↔ text = start ++ rest := by
  unfold stripStart
  split
  · next hstart =>
      obtain ⟨tail, rfl⟩ := List.isPrefixOf_iff_prefix.mp hstart
      rw [List.drop_left, Option.some.injEq, List.append_cancel_left_eq]
  · next hstart =>
      refine iff_of_false (by simp) fun heq => ?_
      exact hstart (List.isPrefixOf_iff_prefix.mpr ⟨rest, heq.symm⟩)

theorem stripStart_eq_none_iff {start : List Char} :
    stripStart start text = none ↔ ∀ rest, text ≠ start ++ rest := by
  constructor
  · rintro h rest rfl
    rw [stripStart_eq_some_iff.mpr rfl] at h
    cases h
  · intro h
    cases hstrip : stripStart start text with
    | none => rfl
    | some rest => exact absurd (stripStart_eq_some_iff.mp hstrip) (h rest)

/-- Whether `needle` occurs somewhere in the text. -/
def occurs (needle text : List Char) : Bool :=
  text.tails.any needle.isPrefixOf

/-- Cut at the first occurrence of a separator. -/
def splitOnce (sep : Char) : List Char → Option (List Char × List Char)
  | [] => none
  | c :: text =>
      if c = sep then some ([], text)
      else (splitOnce sep text).map fun parts => (c :: parts.1, parts.2)

/-- Cut at the last occurrence of a separator. -/
def rsplitOnce (sep : Char) (text : List Char) : Option (List Char × List Char) :=
  (splitOnce sep text.reverse).map fun parts => (parts.2.reverse, parts.1.reverse)

theorem splitOnce_eq_none_iff :
    splitOnce sep text = none ↔ sep ∉ text := by
  induction text with
  | nil => simp [splitOnce]
  | cons c text ih =>
      by_cases hc : c = sep
      · simp [splitOnce, hc]
      · have hne : sep ≠ c := fun h => hc h.symm
        simp [splitOnce, hc, ih, hne]

/-- The first half never contains the separator. -/
theorem splitOnce_eq_some_iff :
    splitOnce sep text = some (before, after) ↔
      text = before ++ sep :: after ∧ sep ∉ before := by
  induction text generalizing before with
  | nil => simp [splitOnce]
  | cons c text ih =>
      by_cases hc : c = sep
      · subst hc
        cases before with
        | nil => simp [splitOnce, eq_comm]
        | cons d before => simp +contextual [splitOnce]
      · cases before with
        | nil => simp [splitOnce, hc]
        | cons d before =>
            have hne : sep ≠ c := fun h => hc h.symm
            simp only [splitOnce, hc, if_false, Option.map_eq_some_iff, Prod.exists,
              Prod.mk.injEq, List.cons.injEq, List.cons_append, List.mem_cons, not_or]
            constructor
            · rintro ⟨a, b, hab, ⟨rfl, rfl⟩, rfl⟩
              obtain ⟨rfl, hmem⟩ := ih.mp hab
              exact ⟨⟨rfl, rfl⟩, hne, hmem⟩
            · rintro ⟨⟨rfl, rfl⟩, -, hmem⟩
              exact ⟨before, after, ih.mpr ⟨rfl, hmem⟩, ⟨rfl, rfl⟩, rfl⟩

theorem rsplitOnce_eq_none_iff :
    rsplitOnce sep text = none ↔ sep ∉ text := by
  simp [rsplitOnce, splitOnce_eq_none_iff]

/-- The second half never contains the separator. -/
theorem rsplitOnce_eq_some_iff :
    rsplitOnce sep text = some (before, after) ↔
      text = before ++ sep :: after ∧ sep ∉ after := by
  have hrev : rsplitOnce sep text = some (before, after) ↔
      splitOnce sep text.reverse = some (after.reverse, before.reverse) := by
    simp only [rsplitOnce, Option.map_eq_some_iff, Prod.exists, Prod.mk.injEq]
    constructor
    · rintro ⟨a, b, hab, rfl, rfl⟩
      simpa using hab
    · intro h
      exact ⟨_, _, h, by simp, by simp⟩
  rw [hrev, splitOnce_eq_some_iff, List.reverse_eq_iff]
  simp

/-- Texts with equally many separators before one have the same before it and behind it. -/
theorem append_sep_inj {before' after' : List Char}
    (h : before ++ sep :: after = before' ++ sep :: after')
    (hcount : before.count sep = before'.count sep) : before = before' ∧ after = after' := by
  have hmore : ∀ {front rest back back' : List Char}, sep :: back = rest ++ sep :: back' →
      (front ++ rest).count sep = front.count sep → rest = [] := by
    intro front rest back back' hsplit hcount
    cases rest with
    | nil => rfl
    | cons c rest =>
        obtain rfl := List.head_eq_of_cons_eq hsplit
        simp at hcount
  rcases List.append_eq_append_iff.mp h with ⟨rest, rfl, hsplit⟩ | ⟨rest, rfl, hsplit⟩
  · obtain rfl := hmore hsplit hcount.symm
    simpa using hsplit
  · obtain rfl := hmore hsplit hcount
    simpa [eq_comm] using hsplit

/-- Joined texts consist of the texts and the separator. -/
theorem mem_intercalate {texts : List (List Char)} (h : c ∈ [sep].intercalate texts) :
    c = sep ∨ ∃ text ∈ texts, c ∈ text := by
  induction texts with
  | nil => simp [List.intercalate] at h
  | cons text texts ih =>
      cases texts with
      | nil => exact .inr ⟨text, List.mem_cons_self, by simpa using h⟩
      | cons next texts =>
          rw [List.intercalate_cons_cons, List.mem_append, List.mem_append] at h
          rcases h with (h | h) | h
          · exact .inr ⟨text, List.mem_cons_self, h⟩
          · exact .inl (List.mem_singleton.mp h)
          · refine (ih h).imp_right ?_
            rintro ⟨other, hother, hmem⟩
            exact ⟨other, List.mem_cons_of_mem text hother, hmem⟩

/-- The separators of joined texts are those between two of them. -/
theorem count_intercalate {texts : List (List Char)} (hne : texts ≠ [])
    (h : ∀ text ∈ texts, sep ∉ text) : ([sep].intercalate texts).count sep + 1 = texts.length := by
  induction texts with
  | nil => exact absurd rfl hne
  | cons text texts ih =>
      obtain ⟨htext, hrest⟩ := List.forall_mem_cons.mp h
      cases texts with
      | nil => simp [List.count_eq_zero.mpr htext]
      | cons next texts =>
          have hcount := ih (List.cons_ne_nil next texts) hrest
          rw [List.intercalate_cons_cons, List.count_append, List.count_append,
            List.count_eq_zero.mpr htext, List.count_singleton_self]
          simp only [List.length_cons] at hcount ⊢
          omega

/-! ## Lines -/

/-- The lines of a text whose current line, so far, is `line` reversed. -/
def linesFrom : List Char → List Char → List (List Char)
  | line, [] => if line = [] then [] else [line.reverse]
  | line, c :: text =>
      if c = '\n' then
        (if line.head? = some '\r' then line.tail else line).reverse :: linesFrom [] text
      else linesFrom (c :: line) text

/-- The lines of a text, without their endings. -/
def lines (text : List Char) : List (List Char) := linesFrom [] text

theorem linesFrom_append {line : List Char} (h : '\n' ∉ text) (done : List Char) :
    linesFrom done (text ++ line) = linesFrom (text.reverse ++ done) line := by
  induction text generalizing done with
  | nil => rfl
  | cons c text ih =>
      simp only [List.mem_cons, not_or] at h
      obtain ⟨hc, htext⟩ := h
      have hne : c ≠ '\n' := fun heq => hc heq.symm
      simp [linesFrom, hne, ih htext]

/-- A line that holds neither of the line-ending characters is split off
whole. -/
theorem lines_append {line rest : List Char} (hlf : '\n' ∉ line) (hcr : '\r' ∉ line) :
    lines (line ++ '\n' :: rest) = line :: lines rest := by
  have hhead : line.reverse.head? ≠ some '\r' := by
    intro h
    exact hcr (List.mem_reverse.mp (List.mem_of_mem_head? h))
  rw [lines, linesFrom_append hlf]
  simp only [List.append_nil, linesFrom, if_true, hhead, if_false, List.reverse_reverse]
  rfl

/-- Lines written one after the other are read back. -/
theorem lines_flatMap {ls : List (List Char)} (h : ∀ l ∈ ls, '\n' ∉ l ∧ '\r' ∉ l) :
    lines (ls.flatMap fun l => l ++ ['\n']) = ls := by
  induction ls with
  | nil => rfl
  | cons l ls ih =>
      obtain ⟨hlf, hcr⟩ := h l List.mem_cons_self
      have hrest := ih fun l' hl' => h l' (List.mem_cons_of_mem l hl')
      rw [List.flatMap_cons, List.append_assoc, List.singleton_append, lines_append hlf hcr, hrest]

/-! ## Numbers -/

/-- Read an unsigned decimal number below `bound`; a leading `+` is allowed. -/
def parseUnsigned (bound : ℕ) (text : List Char) : Option ℕ :=
  let digits := if text.head? = some '+' then text.tail else text
  if digits = [] || digits.any (fun c => !c.isDigit) then none
  else
    let value := Nat.ofDigitChars 10 digits 0
    if value < bound then some value else none

/-- Decimal digits, at least one, of which `n` is the value. -/
def Denotes (digits : List Char) (n : ℕ) : Prop :=
  digits ≠ [] ∧ (∀ c ∈ digits, c.isDigit = true) ∧ Nat.ofDigitChars 10 digits 0 = n

/-- What is read as a number: digits, of which a `+` may stand in front. -/
theorem parseUnsigned_eq_some_iff :
    parseUnsigned bound text = some n ↔
      Denotes (if text.head? = some '+' then text.tail else text) n ∧ n < bound := by
  simp only [parseUnsigned, Denotes]
  generalize (if text.head? = some '+' then text.tail else text) = digits
  by_cases hdigits : digits ≠ [] ∧ ∀ c ∈ digits, c.isDigit = true
  · obtain ⟨hne, hall⟩ := hdigits
    have hany : (digits.any fun c => !c.isDigit) = false := by
      rw [List.any_eq_false]
      intro c hc
      simp [hall c hc]
    simp only [hne, hany, decide_false, Bool.or_self, Bool.false_eq_true, if_false,
      Option.ite_none_right_eq_some, Option.some.injEq, ne_eq, not_false_eq_true, true_and]
    constructor
    · rintro ⟨hlt, rfl⟩
      exact ⟨⟨hall, rfl⟩, hlt⟩
    · rintro ⟨⟨-, rfl⟩, hlt⟩
      exact ⟨hlt, rfl⟩
  · have hrefused : (decide (digits = []) || digits.any fun c => !c.isDigit) = true := by
      by_contra hfalse
      simp only [Bool.or_eq_true, decide_eq_true_eq, List.any_eq_true, Bool.not_eq_true',
        not_or, not_exists, not_and, Bool.not_eq_false] at hfalse
      exact hdigits hfalse
    rw [if_pos hrefused]
    refine iff_of_false (by simp) fun h => hdigits ⟨h.1.1, h.1.2.1⟩

/-- Without the sign only digits are. -/
theorem parseUnsigned_unsigned (h : text.head? ≠ some '+') :
    parseUnsigned bound text = some n ↔ Denotes text n ∧ n < bound := by
  rw [parseUnsigned_eq_some_iff, if_neg h]

/-- The decimal rendering of a number. -/
def decimal (n : ℕ) : List Char := Nat.toDigits 10 n

theorem isDigit_of_mem_decimal (h : c ∈ decimal n) :
    c.isDigit = true :=
  Nat.isDigit_of_mem_toDigits (by decide) (by decide) h

theorem toNat_of_isDigit (h : c.isDigit = true) : 48 ≤ c.toNat ∧ c.toNat ≤ 57 := by
  simp only [Char.isDigit, ge_iff_le, Bool.and_eq_true, decide_eq_true_eq,
    UInt32.le_iff_toNat_le] at h
  exact h

theorem isSpace_of_isDigit (h : c.isDigit = true) : isSpace c = false := by
  have hrange := toNat_of_isDigit h
  simp only [isSpace, Bool.or_eq_false_iff, Bool.and_eq_false_iff, decide_eq_false_iff_not,
    beq_eq_false_iff_ne]
  omega

namespace Denotes

variable {digits text : List Char} {n : ℕ}

theorem noSpace (h : Denotes digits n) {c : Char} (hc : c ∈ digits) : isSpace c = false :=
  isSpace_of_isDigit (h.2.1 c hc)

theorem trim_eq (h : Denotes digits n) (hpadded : Padded digits text) : trim text = digits :=
  hpadded.trim_of_noSpace fun _ hc => h.noSpace hc

theorem not_mem (h : Denotes digits n) {c : Char} (hc : c.isDigit = false) : c ∉ digits := by
  intro hmem
  rw [h.2.1 c hmem] at hc
  cases hc

theorem head_ne_plus (h : Denotes digits n) : digits.head? ≠ some '+' := fun hplus =>
  h.not_mem (c := '+') (by decide) (List.mem_of_mem_head? hplus)

end Denotes

/-- A number with white space around it. -/
theorem parseUnsigned_trim_iff :
    parseUnsigned bound (trim text) = some n ↔
      ∃ digits, (Padded digits text ∨ Padded ('+' :: digits) text) ∧ Denotes digits n ∧
        n < bound := by
  have hpadded := padded_trim text
  rw [parseUnsigned_eq_some_iff]
  constructor
  · rintro ⟨hdigits, hlt⟩
    split at hdigits
    · next hplus =>
        obtain ⟨rest, hrest⟩ := List.head?_eq_some_iff.mp hplus
        rw [hrest] at hpadded hdigits
        exact ⟨rest, .inr hpadded, hdigits, hlt⟩
    · exact ⟨trim text, .inl hpadded, hdigits, hlt⟩
  · rintro ⟨digits, hin | hin, hdigits, hlt⟩
    · rw [hdigits.trim_eq hin, if_neg hdigits.head_ne_plus]
      exact ⟨hdigits, hlt⟩
    · have htrim : trim text = '+' :: digits := hin.trim_of_noSpace fun c hc => by
        rcases List.mem_cons.mp hc with rfl | hc
        · decide
        · exact hdigits.noSpace hc
      rw [htrim, if_pos List.head?_cons]
      exact ⟨hdigits, hlt⟩

theorem denotes_decimal (n : ℕ) : Denotes (decimal n) n :=
  ⟨Nat.toDigits_ne_nil, fun _ hc => isDigit_of_mem_decimal hc, Nat.ofDigitChars_ten_toDigits⟩

/-- No character of a rendering is anything but a digit. -/
theorem not_mem_decimal (h : c.isDigit = false) : c ∉ decimal n :=
  (denotes_decimal n).not_mem h

theorem trim_decimal (n : ℕ) : trim (decimal n) = decimal n :=
  (denotes_decimal n).trim_eq (padded_self _)

/-- Reading back a rendering. -/
theorem parseUnsigned_decimal (h : n < bound) :
    parseUnsigned bound (decimal n) = some n :=
  (parseUnsigned_unsigned (denotes_decimal n).head_ne_plus).mpr ⟨denotes_decimal n, h⟩

/-! ## Case -/

/-- A capital is lowered to its letter, and nothing else changes. -/
theorem toLower_eq_or (c : Char) :
    c.toLower = c ∨ 65 ≤ c.toNat ∧ c.toNat ≤ 90 ∧ c.toLower.toNat = c.toNat + 32 := by
  unfold Char.toLower
  split
  · next hupper =>
      obtain ⟨hlow, hhigh⟩ := hupper
      simp only [ge_iff_le, UInt32.le_iff_toNat_le] at hlow hhigh
      have hlow : 65 ≤ c.toNat := hlow
      have hhigh : c.toNat ≤ 90 := hhigh
      refine .inr ⟨hlow, hhigh, ?_⟩
      show (c.val + ('a'.val - 'A'.val)).toNat = c.val.toNat + 32
      have hval : c.val.toNat = c.toNat := rfl
      rw [UInt32.toNat_add, hval, Nat.mod_eq_of_lt]
      · rfl
      · show c.toNat + 32 < 2 ^ 32
        omega
  · exact .inl rfl

theorem toLower_of_small (h : 97 ≤ c.toNat) : c.toLower = c := by
  rcases toLower_eq_or c with hsame | ⟨-, hhigh, -⟩
  · exact hsame
  · omega

theorem toLower_toLower (c : Char) : c.toLower.toLower = c.toLower := by
  rcases toLower_eq_or c with hsame | hletter
  · rw [hsame, hsame]
  · exact toLower_of_small (by omega)

/-- Neither a capital nor a small letter is white space. -/
theorem isSpace_of_letter (hlow : 65 ≤ c.toNat) (hhigh : c.toNat ≤ 122) :
    isSpace c = false := by
  simp only [isSpace, Bool.or_eq_false_iff, Bool.and_eq_false_iff, decide_eq_false_iff_not,
    beq_eq_false_iff_ne]
  omega

theorem isSpace_toLower (c : Char) : isSpace c.toLower = isSpace c := by
  rcases toLower_eq_or c with hsame | hletter
  · rw [hsame]
  · rw [isSpace_of_letter (c := c) (by omega) (by omega), isSpace_of_letter (by omega) (by omega)]

theorem isDigit_of_letter (hlow : 65 ≤ c.toNat) : c.isDigit = false := by
  rw [← Bool.not_eq_true]
  intro hdigit
  have hrange := toNat_of_isDigit hdigit
  omega

theorem isDigit_toLower (c : Char) : c.toLower.isDigit = c.isDigit := by
  rcases toLower_eq_or c with hsame | hletter
  · rw [hsame]
  · rw [isDigit_of_letter (c := c) (by omega), isDigit_of_letter (by omega)]

/-! ## Reading in steps -/

section Steps

variable {ε α β : Type} {first : Except ε α} {next : α → Except ε β}

theorem ok_of_bind {b : β} (h : (first >>= next) = .ok b) :
    ∃ a, first = .ok a ∧ next a = .ok b := by
  cases first with
  | error e => cases h
  | ok a => exact ⟨a, rfl, h⟩

theorem error_of_bind {e : ε} (h : (first >>= next) = .error e) :
    first = .error e ∨ ∃ a, first = .ok a ∧ next a = .error e := by
  cases first with
  | error e' =>
      cases h
      exact .inl rfl
  | ok a => exact .inr ⟨a, rfl, h⟩

theorem mapError_eq_ok_iff {ε' : Type} {f : ε → ε'} {a : α} :
    first.mapError f = .ok a ↔ first = .ok a := by
  cases first with
  | error e => simp [Except.mapError]
  | ok b => simp [Except.mapError]

/-- A check that is passed was not failed. -/
theorem ite_error_eq_ok {c : Prop} [Decidable c] {e : ε} {a : α} :
    (if c then .error e else first) = .ok a ↔ ¬c ∧ first = .ok a := by
  by_cases h : c
  · simp [h]
  · simp [h]

end Steps

end CharText
