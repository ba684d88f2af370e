import Cachic.Orchestrator.Process
import Cachic.Orchestrator.Solo

/-!
# What two headers are read as

`Range` and `Content-Range` are read with the trimming, splitting and number parsing of the
standard library.  `SpellsRange` and `CoherentRange` are the grammars they should be read by,
said about the text alone.

The standard number parser takes a leading `+`, so `parse_range` accepts ranges with a sign in
front of a number, and apart from them just its grammar (`range_grammar`).  Of a
`Content-Range` only what follows the last slash is read, so a value with a number there is
taken for a length whatever stands before it (`content_range_length`).

Both theorems are equivalences: the left side is what the header should be read as, and the
right side names the texts for which it is.  The `Range` grammar is stated once for any notion
of a number; `Denotes` is that of the grammar and `Numeral` that of the standard library, so the
two languages differ in nothing else (`spellsRange_denotes_iff`).
-/

namespace Cachic

open CharText ActionLang ActionLang.Prog

/-! ## `Range` -/

namespace Range

/-- The spec of a `Range` header in bytes. -/
def BytesSpec (value : String) (spec : List Char) : Prop :=
  trim value.toList = "bytes=".toList ++ spec

/-- Two halves, up to white space, that spell a range; `number` says what spells a number. -/
inductive SpellsHalves (number : List Char → ℕ → Prop) : List Char → List Char → RangeSpec → Prop
  | fromTo {left right first last : List Char} {start stop : ℕ} :
      Padded first left → Padded last right → number first start → number last stop →
      start ≤ stop → stop < 2 ^ 64 → SpellsHalves number left right (.fromTo start stop)
  | from {left right first : List Char} {start : ℕ} :
      Padded first left → Padded [] right → number first start → start < 2 ^ 64 →
      SpellsHalves number left right (.from start)
  | suffix {left right last : List Char} {n : ℕ} :
      Padded [] left → Padded last right → number last n → n < 2 ^ 64 →
      SpellsHalves number left right (.suffix n)

/-- A spec without a comma whose first dash separates such halves. -/
def SpellsRange (number : List Char → ℕ → Prop) (spec : List Char) (range : RangeSpec) : Prop :=
  ',' ∉ spec ∧ ∃ left right, spec = left ++ '-' :: right ∧ '-' ∉ left ∧
    SpellsHalves number left right range

/-- What the standard library reads as a number: digits, of which a `+` may stand in front. -/
def Numeral (text : List Char) (n : ℕ) : Prop :=
  Denotes (if text.head? = some '+' then text.tail else text) n

/-- A range that is in order and has a sign in front of one of its numbers. -/
def SignedRange (value : String) : Prop :=
  ∃ left right range, BytesSpec value (left ++ '-' :: right) ∧ ',' ∉ left ++ '-' :: right ∧
    '-' ∉ left ∧ SpellsHalves Numeral left right range ∧
      ((trim left).head? = some '+' ∨ (trim right).head? = some '+')

/-- What is made of the halves. -/
def parseHalves (left right : List Char) : Except RangeError RangeSpec :=
  match trim left, trim right with
  | [], [] => .error .malformed
  | [], suffix => do
      let n ← parseU64 suffix
      return .suffix n
  | s, [] => do
      let start ← parseU64 s
      return .from start
  | s, e => do
      let start ← parseU64 s
      let stop ← parseU64 e
      if start > stop then throw .malformed
      return .fromTo start stop

variable {value : String} {left right spec text : List Char} {range : RangeSpec}

theorem parseRange_of_not_bytes (h : ∀ spec, ¬ BytesSpec value spec) :
    parseRange value = .error .malformed := by
  rw [parseRange, stripStart_eq_none_iff.mpr h]

theorem parseRange_of_bytes (h : BytesSpec value spec) :
    parseRange value =
      if ',' ∈ spec then .error .multiple
      else
        match splitOnce '-' spec with
        | none => .error .malformed
        | some (left, right) => parseHalves left right := by
  rw [parseRange, stripStart_eq_some_iff.mpr h]
  rfl

theorem parseU64_eq_ok_iff {n : ℕ} :
    parseU64 text = .ok n ↔ Numeral text n ∧ n < 2 ^ 64 := by
  rw [Numeral, ← parseUnsigned_eq_some_iff, parseU64]
  cases parseUnsigned (2 ^ 64) text <;> simp

theorem numeral_of_denotes {n : ℕ} (h : Denotes text n) : Numeral text n := by
  rw [Numeral, if_neg h.head_ne_plus]
  exact h

namespace Numeral

variable {text core : List Char} {n : ℕ}

theorem denotes (h : Numeral text n) (hplus : text.head? ≠ some '+') : Denotes text n := by
  rw [Numeral, if_neg hplus] at h
  exact h

theorem ne_nil (h : Numeral text n) : text ≠ [] := by
  rintro rfl
  exact h.1 rfl

theorem trim_eq (h : Numeral core n) (hpadded : Padded core text) : trim text = core := by
  refine hpadded.trim_of_noSpace fun c hc => ?_
  unfold Numeral at h
  split at h
  · next hplus =>
      obtain ⟨digits, rfl⟩ := List.head?_eq_some_iff.mp hplus
      rcases List.mem_cons.mp hc with rfl | hc
      · decide
      · exact h.noSpace hc
  · exact h.noSpace hc

end Numeral

/-- Halves without a sign have the numbers of the grammar. -/
theorem SpellsHalves.denotes (h : SpellsHalves Numeral left right range)
    (hleft : (trim left).head? ≠ some '+') (hright : (trim right).head? ≠ some '+') :
    SpellsHalves Denotes left right range := by
  cases h with
  | fromTo hfirst hlast hstart hstop horder hlt =>
      rw [hstart.trim_eq hfirst] at hleft
      rw [hstop.trim_eq hlast] at hright
      exact .fromTo hfirst hlast (hstart.denotes hleft) (hstop.denotes hright) horder hlt
  | «from» hfirst hempty hstart hlt =>
      rw [hstart.trim_eq hfirst] at hleft
      exact .from hfirst hempty (hstart.denotes hleft) hlt
  | suffix hempty hlast hn hlt =>
      rw [hn.trim_eq hlast] at hright
      exact .suffix hempty hlast (hn.denotes hright) hlt

/-- The grammar knows no signs. -/
theorem SpellsHalves.unsigned (h : SpellsHalves Denotes left right range) :
    SpellsHalves Numeral left right range ∧
      (trim left).head? ≠ some '+' ∧ (trim right).head? ≠ some '+' := by
  cases h with
  | fromTo hfirst hlast hstart hstop horder hlt =>
      rw [hstart.trim_eq hfirst, hstop.trim_eq hlast]
      exact ⟨.fromTo hfirst hlast (numeral_of_denotes hstart) (numeral_of_denotes hstop) horder
        hlt, hstart.head_ne_plus, hstop.head_ne_plus⟩
  | «from» hfirst hempty hstart hlt =>
      rw [hstart.trim_eq hfirst, hempty.trim_of_noSpace (by simp)]
      exact ⟨.from hfirst hempty (numeral_of_denotes hstart) hlt, hstart.head_ne_plus, by simp⟩
  | suffix hempty hlast hn hlt =>
      rw [hempty.trim_of_noSpace (by simp), hn.trim_eq hlast]
      exact ⟨.suffix hempty hlast (numeral_of_denotes hn) hlt, by simp, hn.head_ne_plus⟩

theorem parseU64_error {e : RangeError} (h : parseU64 text = .error e) :
    e = .malformed := by
  unfold parseU64 at h
  split at h
  · cases h
    rfl
  · cases h

/-- The halves are read as their grammar says, for these numbers. -/
theorem parseHalves_eq_ok_iff :
    parseHalves left right = .ok range ↔ SpellsHalves Numeral left right range := by
  have hl := padded_trim left
  have hr := padded_trim right
  constructor
  · intro h
    unfold parseHalves at h
    split at h
    · cases h
    · next hempty _ =>
        obtain ⟨n, hn, h⟩ := ok_of_bind h
        cases h
        obtain ⟨hdigits, hlt⟩ := parseU64_eq_ok_iff.mp hn
        exact .suffix (hempty ▸ hl) hr hdigits hlt
    · next hempty _ =>
        obtain ⟨start, hstart, h⟩ := ok_of_bind h
        cases h
        obtain ⟨hdigits, hlt⟩ := parseU64_eq_ok_iff.mp hstart
        exact .from hl (hempty ▸ hr) hdigits hlt
    · obtain ⟨start, hstart, h⟩ := ok_of_bind h
      obtain ⟨stop, hstop, h⟩ := ok_of_bind h
      obtain ⟨hfirst, -⟩ := parseU64_eq_ok_iff.mp hstart
      obtain ⟨hlast, hlt⟩ := parseU64_eq_ok_iff.mp hstop
      split at h
      · cases h
      · next horder =>
          cases h
          exact .fromTo hl hr hfirst hlast (not_lt.mp horder) hlt
  · rintro (⟨hfirst, hlast, hstart, hstop, horder, hlt⟩ | ⟨hfirst, hempty, hstart, hlt⟩ |
      ⟨hempty, hlast, hn, hlt⟩)
    · have hs := parseU64_eq_ok_iff.mpr ⟨hstart, lt_of_le_of_lt horder hlt⟩
      have he := parseU64_eq_ok_iff.mpr ⟨hstop, hlt⟩
      obtain ⟨c, first, rfl⟩ := List.exists_cons_of_ne_nil hstart.ne_nil
      obtain ⟨d, last, rfl⟩ := List.exists_cons_of_ne_nil hstop.ne_nil
      simp only [parseHalves, hstart.trim_eq hfirst, hstop.trim_eq hlast, hs, he]
      exact if_neg (not_lt.mpr horder)
    · have hs := parseU64_eq_ok_iff.mpr ⟨hstart, hlt⟩
      obtain ⟨c, first, rfl⟩ := List.exists_cons_of_ne_nil hstart.ne_nil
      simp only [parseHalves, hstart.trim_eq hfirst, hempty.trim_of_noSpace (by simp), hs]
      rfl
    · have hs := parseU64_eq_ok_iff.mpr ⟨hn, hlt⟩
      obtain ⟨d, last, rfl⟩ := List.exists_cons_of_ne_nil hn.ne_nil
      simp only [parseHalves, hempty.trim_of_noSpace (by simp), hn.trim_eq hlast, hs]
      rfl

theorem parseHalves_error {e : RangeError} (h : parseHalves left right = .error e) :
    e = .malformed := by
  unfold parseHalves at h
  split at h
  · cases h
    rfl
  · rcases error_of_bind h with hn | ⟨n, -, h⟩
    · exact parseU64_error hn
    · cases h
  · rcases error_of_bind h with hstart | ⟨start, -, h⟩
    · exact parseU64_error hstart
    · cases h
  · rcases error_of_bind h with hstart | ⟨start, -, h⟩
    · exact parseU64_error hstart
    · rcases error_of_bind h with hstop | ⟨stop, -, h⟩
      · exact parseU64_error hstop
      · split at h
        · cases h
          rfl
        · cases h

/-- A header has one spec. -/
theorem BytesSpec.exists_iff (h : BytesSpec value spec) {P : List Char → Prop} :
    (∃ spec, BytesSpec value spec ∧ P spec) ↔ P spec := by
  constructor
  · rintro ⟨other, hother, hP⟩
    have hsame : spec = other := List.append_cancel_left (h.symm.trans hother)
    exact hsame ▸ hP
  · exact fun hP => ⟨spec, h, hP⟩

/-- A spec has one first dash. -/
theorem spellsRange_iff {number : List Char → ℕ → Prop} (hcomma : ',' ∉ left ++ '-' :: right)
    (hdash : '-' ∉ left) :
    SpellsRange number (left ++ '-' :: right) range ↔ SpellsHalves number left right range := by
  constructor
  · rintro ⟨-, left', right', heq, hdash', hspells⟩
    have hsplit : splitOnce '-' (left ++ '-' :: right) = some (left, right) :=
      splitOnce_eq_some_iff.mpr ⟨rfl, hdash⟩
    cases hsplit.symm.trans (splitOnce_eq_some_iff.mpr ⟨heq, hdash'⟩)
    exact hspells
  · exact fun hspells => ⟨hcomma, left, right, rfl, hdash, hspells⟩

/-- A spec without a comma is read as the grammar with these numbers says, and is malformed
otherwise. -/
theorem parseRange_single (h : BytesSpec value spec) (hcomma : ',' ∉ spec) :
    (∀ range, parseRange value = .ok range ↔ SpellsRange Numeral spec range) ∧
      ∀ e, parseRange value = .error e → e = .malformed := by
  rw [parseRange_of_bytes h, if_neg hcomma]
  cases hsplit : splitOnce '-' spec with
  | none =>
      have hdash := splitOnce_eq_none_iff.mp hsplit
      refine ⟨fun range => iff_of_false (by simp) ?_, fun e he => ?_⟩
      · rintro ⟨-, left, right, rfl, -⟩
        exact hdash (by simp)
      · cases he
        rfl
  | some parts =>
      obtain ⟨left, right⟩ := parts
      obtain ⟨rfl, hdash⟩ := splitOnce_eq_some_iff.mp hsplit
      refine ⟨fun range => ?_, fun e => parseHalves_error⟩
      rw [spellsRange_iff hcomma hdash]
      exact parseHalves_eq_ok_iff

/-- What is accepted, what counts as several ranges and what is malformed, for a grammar with
these numbers. -/
def ReadBy (number : List Char → ℕ → Prop) (value : String) : Prop :=
  (∀ range, parseRange value = .ok range ↔
      ∃ spec, BytesSpec value spec ∧ SpellsRange number spec range) ∧
    (parseRange value = .error .multiple ↔ ∃ spec, BytesSpec value spec ∧ ',' ∈ spec) ∧
    (parseRange value = .error .malformed ↔
      (¬ ∃ spec, BytesSpec value spec ∧ ',' ∈ spec) ∧
        ∀ range, ¬ ∃ spec, BytesSpec value spec ∧ SpellsRange number spec range)

theorem readBy_numeral (value : String) : ReadBy Numeral value := by
  by_cases hbytes : ∃ spec, BytesSpec value spec
  · obtain ⟨spec, hspec⟩ := hbytes
    simp only [ReadBy, hspec.exists_iff]
    by_cases hcomma : ',' ∈ spec
    · have hparse : parseRange value = .error .multiple := by
        rw [parseRange_of_bytes hspec, if_pos hcomma]
      simp [hparse, hcomma, SpellsRange]
    · obtain ⟨hok, herror⟩ := parseRange_single hspec hcomma
      refine ⟨hok, iff_of_false (fun h => ?_) hcomma, ?_⟩
      · cases herror _ h
      · simp only [hcomma, not_false_eq_true, true_and, ← hok]
        cases hparse : parseRange value with
        | ok range => simp
        | error e =>
            cases herror e hparse
            simp
  · have hnone : ∀ spec, ¬ BytesSpec value spec := not_exists.mp hbytes
    simp [ReadBy, parseRange_of_not_bytes hnone, hnone]

/-- Signs are all that the two grammars differ in. -/
theorem spellsRange_denotes_iff (hsigned : ¬ SignedRange value) (hspec : BytesSpec value spec) :
    SpellsRange Numeral spec range ↔ SpellsRange Denotes spec range := by
  constructor
  · rintro ⟨hcomma, left, right, rfl, hdash, hspells⟩
    refine ⟨hcomma, left, right, rfl, hdash, hspells.denotes (fun hplus => ?_) fun hplus => ?_⟩
    · exact hsigned ⟨left, right, range, hspec, hcomma, hdash, hspells, .inl hplus⟩
    · exact hsigned ⟨left, right, range, hspec, hcomma, hdash, hspells, .inr hplus⟩
  · rintro ⟨hcomma, left, right, rfl, hdash, hspells⟩
    exact ⟨hcomma, left, right, rfl, hdash, hspells.unsigned.1⟩

end Range

open Range in
/-- **`parse_range` and its grammar.**  What is accepted, what counts as several ranges and what
is malformed is as the grammar says, exactly when the header is not a range that is in order and
has a sign in front of one of its numbers. -/
theorem range_grammar (value : String) :
    ((∀ range, parseRange value = .ok range ↔
          ∃ spec, BytesSpec value spec ∧ SpellsRange Denotes spec range) ∧
        (parseRange value = .error .multiple ↔ ∃ spec, BytesSpec value spec ∧ ',' ∈ spec) ∧
        (parseRange value = .error .malformed ↔
          (¬ ∃ spec, BytesSpec value spec ∧ ',' ∈ spec) ∧
            ∀ range, ¬ ∃ spec, BytesSpec value spec ∧ SpellsRange Denotes spec range)) ↔
      ¬ SignedRange value := by
  have hread := readBy_numeral value
  constructor
  · rintro ⟨hok, -⟩ ⟨left, right, range, hspec, hcomma, hdash, hspells, hplus⟩
    have haccepted := (hread.1 range).mpr
      ⟨_, hspec, (spellsRange_iff hcomma hdash).mpr hspells⟩
    rw [hok range, hspec.exists_iff, spellsRange_iff hcomma hdash] at haccepted
    obtain ⟨-, hleft, hright⟩ := haccepted.unsigned
    exact hplus.elim hleft hright
  · intro hsigned
    have hsame : ∀ range, (∃ spec, BytesSpec value spec ∧ SpellsRange Numeral spec range) ↔
        ∃ spec, BytesSpec value spec ∧ SpellsRange Denotes spec range := fun range =>
      exists_congr fun spec => and_congr_right fun hspec => spellsRange_denotes_iff hsigned hspec
    simp only [ReadBy, hsame] at hread
    exact hread

namespace Scenario

open Range

/-- Signs that are not in front of a number of a range in order change nothing. -/
theorem range_grammar_stray_sign : parseRange "bytes=x-+5" = .error .malformed ∧
    ∀ range, ¬ ∃ spec, BytesSpec "bytes=x-+5" spec ∧ SpellsRange Denotes spec range := by
  have hparse : parseRange "bytes=x-+5" = .error .malformed := by decide
  have hsigned : ¬ SignedRange "bytes=x-+5" := by
    rintro ⟨left, right, range, hspec, hcomma, hdash, hspells, -⟩
    have haccepted := ((readBy_numeral _).1 range).mpr
      ⟨_, hspec, (spellsRange_iff hcomma hdash).mpr hspells⟩
    rw [hparse] at haccepted
    cases haccepted
  exact ⟨hparse, (((range_grammar "bytes=x-+5").mpr hsigned).2.2.mp hparse).2⟩

/-- A sign in front of a number is accepted. -/
theorem range_with_sign :
    parseRange "bytes=+5-10" = .ok (.fromTo 5 10) ∧
      ¬ ∃ spec, BytesSpec "bytes=+5-10" spec ∧ SpellsRange Denotes spec (.fromTo 5 10) := by
  have hspec : BytesSpec "bytes=+5-10" ("+5".toList ++ '-' :: "10".toList) := by
    show trim _ = _
    decide
  refine ⟨by decide, ?_⟩
  rw [hspec.exists_iff, spellsRange_iff (by decide) (by decide)]
  intro hspells
  exact hspells.unsigned.2.1 (by decide)

end Scenario

/-! ## `Content-Range` -/

/-- A value that is `bytes first-last/total`, up to blanks around it, for a range inside an
object of that length. -/
def CoherentRange (value : String) (total : ℕ) : Prop :=
  ∃ before first last digits after start stop,
    value.toList = before ++ "bytes ".toList ++ first ++ '-' :: last ++ '/' :: (digits ++ after) ∧
      (∀ c ∈ before ++ after, c = ' ' ∨ c = '\t') ∧
      Denotes first start ∧ Denotes last stop ∧ Denotes digits total ∧
      start ≤ stop ∧ stop < total ∧ total < 2 ^ 64

/-- A value whose last slash has a number behind it. -/
def EndsInNumber (value : String) (n : ℕ) : Prop :=
  toStr value = some value ∧ ∃ before behind digits,
    value.toList = before ++ '/' :: behind ∧ '/' ∉ behind ∧
      (Padded digits behind ∨ Padded ('+' :: digits) behind) ∧ Denotes digits n ∧ n < 2 ^ 64

theorem toStr_eq_some {value text : String} (h : toStr value = some text) : text = value := by
  unfold toStr at h
  split at h
  · exact (Option.some.inj h).symm
  · cases h

/-- The length that is read is the number behind the last slash. -/
theorem contentRangeTotal_eq_some_iff {response : UpstreamResponse} {value : String} {n : ℕ}
    (hvalue : response.headers.lookup "content-range" = some value) :
    response.contentRangeTotal = some n ↔ EndsInNumber value n := by
  have hheader : response.header "content-range" = toStr value := by
    rw [UpstreamResponse.header, HeaderMap.header, hvalue]
    rfl
  simp only [UpstreamResponse.contentRangeTotal, hheader, EndsInNumber, Option.bind_eq_bind,
    Option.bind_eq_some_iff, Prod.exists, rsplitOnce_eq_some_iff, parseUnsigned_trim_iff]
  constructor
  · rintro ⟨text, htext, before, behind, ⟨hsplit, hslash⟩, digits, hnumber⟩
    obtain rfl := toStr_eq_some htext
    exact ⟨htext, before, behind, digits, hsplit, hslash, hnumber⟩
  · rintro ⟨htext, before, behind, digits, hsplit, hslash, hnumber⟩
    exact ⟨value, htext, before, behind, ⟨hsplit, hslash⟩, digits, hnumber⟩

theorem EndsInNumber.unique {value : String} {m n : ℕ} (hm : EndsInNumber value m)
    (hn : EndsInNumber value n) : m = n := by
  let response : UpstreamResponse :=
    { status := 206, headers := [("content-range", value)], body := [] }
  have hvalue : response.headers.lookup "content-range" = some value := rfl
  rw [← contentRangeTotal_eq_some_iff hvalue] at hm hn
  exact Option.some.inj (hm.symm.trans hn)

/-- The characters of a readable value. -/
def Visible (c : Char) : Prop := c = '\t' ∨ 32 ≤ c.toNat ∧ c.toNat < 127

theorem toStr_of_visible {value : String} (h : ∀ c ∈ value.toList, Visible c) :
    toStr value = some value := by
  refine if_pos (List.all_eq_true.mpr fun c hc => ?_)
  simpa [Visible] using h c hc

theorem visible_of_blank {c : Char} (h : c = ' ' ∨ c = '\t') : Visible c := by
  rcases h with rfl | rfl
  · exact .inr (by decide)
  · exact .inl rfl

/-- A coherent value is read as the length it states. -/
theorem CoherentRange.endsInNumber {value : String} {n : ℕ} (h : CoherentRange value n) :
    EndsInNumber value n := by
  obtain ⟨before, first, last, digits, after, start, stop, htext, hblank, hfirst, hlast, hdigits,
    -, -, hlt⟩ := h
  have hspace : ∀ c ∈ after, isSpace c = true := fun c hc => by
    rcases hblank c (List.mem_append_right before hc) with rfl | rfl <;> decide
  have hslash : '/' ∉ after := fun hc => by
    rcases hblank '/' (List.mem_append_right before hc) with h | h <;> cases h
  have hdigit : ∀ {digits m}, Denotes digits m → ∀ c ∈ digits, Visible c := fun hdigits c hc => by
    have hrange := toNat_of_isDigit (hdigits.2.1 c hc)
    exact .inr ⟨by omega, by omega⟩
  have hvisible : ∀ c ∈ value.toList, Visible c := by
    intro c hc
    simp only [htext, List.mem_append, List.mem_cons] at hc
    rcases hc with ((((hc | hc) | hc) | rfl | hc) | rfl | hc | hc)
    · exact visible_of_blank (hblank c (List.mem_append_left after hc))
    · have hunit : c ∈ ['b', 'y', 't', 'e', 's', ' '] := hc
      simp only [List.mem_cons, List.not_mem_nil, or_false] at hunit
      rcases hunit with rfl | rfl | rfl | rfl | rfl | rfl <;> exact .inr (by decide)
    · exact hdigit hfirst c hc
    · exact .inr (by decide)
    · exact hdigit hlast c hc
    · exact .inr (by decide)
    · exact hdigit hdigits c hc
    · exact visible_of_blank (hblank c (List.mem_append_right before hc))
  refine ⟨toStr_of_visible hvisible, _, digits ++ after, digits, htext, ?_,
    .inl ⟨[], after, rfl, by simp, hspace⟩, hdigits, hlt⟩
  · rw [List.mem_append, not_or]
    exact ⟨hdigits.not_mem (by decide), hslash⟩

/-! ### What a probe makes of it -/

section Probe

variable {cfg : Config} {key : CacheKey} {object : ObjectId} {url : String} {headers : HeaderMap}
  {index : ℕ} {s s' : Shared} {trace : List (Event Act Act.Res)} {raw : RawResponse}

/-- The requests of a fetch end with the one that is answered. -/
theorem attempt_of_answer {client : ClientConfig} {purpose : Purpose} {request : Request}
    {start stop retries : ℕ} {result : Except UpstreamError UpstreamResponse}
    (hrun : Runs exec (attempt client purpose request start stop retries) s trace result s')
    (hanswer : ⟨.send purpose request, .ok raw⟩ ∈ trace) :
    result = receive client request.url start stop raw := by
  induction retries generalizing s trace with
  | zero =>
      obtain ⟨choice, reply, s₁, rest, hexec, rfl, hrest⟩ := runs_perform_bind_iff.mp hrun
      cases reply <;> obtain ⟨rfl, rfl, rfl⟩ := runs_ret_iff.mp hrest <;>
        cases List.mem_singleton.mp hanswer
      rfl
  | succ retries ih =>
      obtain ⟨choice, reply, s₁, rest, hexec, rfl, hrest⟩ := runs_perform_bind_iff.mp hrun
      cases reply with
      | ok raw' =>
          obtain ⟨rfl, rfl, rfl⟩ := runs_ret_iff.mp hrest
          cases List.mem_singleton.mp hanswer
          rfl
      | error source =>
          have hlater : ⟨.send purpose request, .ok raw⟩ ∈ rest := by
            rcases List.mem_cons.mp hanswer with heq | hlater
            · cases heq
            · exact hlater
          dsimp only at hrest
          split at hrest
          · exact ih hrest hlater
          · obtain ⟨rfl, -, -⟩ := runs_ret_iff.mp hrest
            cases hlater

theorem fetchRange_of_answer {client : ClientConfig} {purpose : Purpose} {start stop : ℕ}
    {result : Except UpstreamError UpstreamResponse}
    (hrun : Runs exec (fetchRange client purpose url headers start stop) s trace result s')
    (hanswer : ⟨.send purpose { url := url, range := some (start, stop), headers := headers },
      .ok raw⟩ ∈ trace) : result = receive client url start stop raw := by
  obtain ⟨choice, resolved, s₁, rest, -, rfl, hrest⟩ := runs_perform_bind_iff.mp hrun
  have hlater := (List.mem_cons.mp hanswer).resolve_left fun heq => by cases heq
  cases resolved with
  | error e =>
      obtain ⟨rfl, -, -⟩ := runs_ret_iff.mp hrest
      cases hlater
  | ok _ => exact attempt_of_answer hrest hlater

/-- **A probe that is answered** learns from the answer and writes what it learnt, or learns
nothing and writes nothing. -/
theorem probe_of_answer {result : Except OrchestratorError ObjectMeta}
    (hrun : Runs exec (probe cfg key object url headers index) s trace result s')
    (hanswer : ⟨.send (.probe object index)
      { url := url
        range := some (index * cfg.sliceSize, index * cfg.sliceSize + cfg.sliceSize - 1)
        headers := headers }, .ok raw⟩ ∈ trace) :
    match learn cfg key url index (receive cfg.client url (index * cfg.sliceSize)
      (index * cfg.sliceSize + cfg.sliceSize - 1) raw) with
    | .error e => result = .error e ∧ s' = s
    | .ok probed => ∃ now, result = .ok (probed.info (generationOf (s.index.get object)) now) ∧
        s' = s.afterProbe object probed now := by
  obtain ⟨fetched, asked, written, rfl, hwritten, hfetch, hlearn⟩ := runs_probe hrun
  -- nothing is asked for while it writes
  have hasked := (List.mem_append.mp hanswer).resolve_right fun hlater =>
    absurd (hwritten _ hlater) (by simp [Act.network])
  rw [← fetchRange_of_answer hfetch hasked]
  exact hlearn

/-- **What a probe takes for a length.**  It takes the length of a coherent value and of no
other, and learns nothing from any other, exactly when the value is coherent or has no number
behind its last slash. -/
theorem content_range_length {result : Except OrchestratorError ObjectMeta}
    {response : UpstreamResponse} {value : String}
    (hrun : Runs exec (probe cfg key object url headers index) s trace result s')
    (hanswer : ⟨.send (.probe object index)
      { url := url
        range := some (index * cfg.sliceSize, index * cfg.sliceSize + cfg.sliceSize - 1)
        headers := headers }, .ok raw⟩ ∈ trace)
    (hreceive : receive cfg.client url (index * cfg.sliceSize)
      (index * cfg.sliceSize + cfg.sliceSize - 1) raw = .ok response)
    (hstatus : raw.status = 206) (hvalue : raw.headers.lookup "content-range" = some value) :
    ((∀ n, (∃ info, result = .ok info ∧ s'.index.get object = some info ∧ info.totalLen = n) ↔
          CoherentRange value n) ∧
        ((∀ n, ¬ CoherentRange value n) →
          result = .error (.noLength url) ∧ s'.store = s.store ∧ s'.index = s.index)) ↔
      (∃ n, CoherentRange value n) ∨ ¬ ∃ n, EndsInNumber value n := by
  have hprobe := probe_of_answer hrun hanswer
  obtain ⟨hstatus', hheaders, -, -⟩ := receive_ok hreceive
  have htotal : ∀ n, response.contentRangeTotal = some n ↔ EndsInNumber value n := fun n =>
    contentRangeTotal_eq_some_iff (hheaders ▸ hvalue)
  rw [hreceive] at hprobe
  simp only [learn, shape, hstatus'.trans hstatus, if_true] at hprobe
  cases hread : response.contentRangeTotal with
  | none =>
      simp only [hread] at hprobe
      obtain ⟨rfl, rfl⟩ := hprobe
      have hnumber : ∀ n, ¬ EndsInNumber value n := fun n hn => by
        rw [← htotal n, hread] at hn
        cases hn
      refine iff_of_true ⟨fun n => iff_of_false ?_ ?_, fun _ => ⟨rfl, rfl, rfl⟩⟩
        (.inr (not_exists.mpr hnumber))
      · rintro ⟨info, hok, -⟩
        cases hok
      · exact fun hn => hnumber n hn.endsInNumber
  | some total =>
      simp only [hread] at hprobe
      obtain ⟨now, rfl, rfl⟩ := hprobe
      have hnumber := (htotal total).mp hread
      constructor
      · rintro ⟨hlength, -⟩
        exact .inl ⟨total, (hlength total).mp ⟨_, rfl, ObjectIndex.get_put_self _ _ _, rfl⟩⟩
      · intro hvalue
        obtain ⟨m, hm⟩ := hvalue.resolve_right (not_not.mpr ⟨total, hnumber⟩)
        obtain rfl := hnumber.unique hm.endsInNumber
        refine ⟨fun n => ⟨?_, fun hn => ?_⟩, fun hnone => absurd hm (hnone total)⟩
        · rintro ⟨info, hok, -, rfl⟩
          cases hok
          exact hm
        · obtain rfl := hnumber.unique hn.endsInNumber
          exact ⟨_, rfl, ObjectIndex.get_put_self _ _ _, rfl⟩

end Probe

namespace Scenario

theorem coherentRange_one : CoherentRange "bytes 0-0/1" 1 :=
  ⟨[], decimal 0, decimal 0, decimal 1, [], 0, 0, by decide, by simp, denotes_decimal 0,
    denotes_decimal 0, denotes_decimal 1, by decide⟩

/-- The length of an object of one byte is learnt. -/
theorem content_range_length_one : ∃ trace info s',
    Runs exec (probe config key object url [] 0) Shared.init trace (.ok info) s' ∧
      s'.index.get object = some info ∧ info.totalLen = 1 := by
  obtain ⟨trace, info, s', hruns, hanswer⟩ : ∃ trace info s',
      Runs exec (probe config key object url [] 0) Shared.init trace (.ok info) s' ∧
        ⟨.send (.probe object 0) { url := url, range := some (0, 4095), headers := [] },
          .ok (raw "\"v1\"" "bytes 0-0/1" [1])⟩ ∈ trace :=
    ⟨_, _, _, runs_act_iff.mpr ⟨.resolved (.ok ()), _, _, _, rfl, rfl,
      runs_act_iff.mpr ⟨reply "\"v1\"" "bytes 0-0/1" [1], _, _, _, rfl, rfl,
        runs_act_iff.mpr ⟨.go, _, _, _, rfl, rfl, runs_act_iff.mpr ⟨.time 0, _, _, _, rfl, rfl,
          runs_act_iff.mpr ⟨.go, _, _, _, rfl, rfl, runs_act_iff.mpr ⟨.go, _, _, _, rfl, rfl,
            .ret _ _⟩⟩⟩⟩⟩⟩, by simp [config]⟩
  refine ⟨trace, info, s', hruns, ?_⟩
  obtain ⟨hlength, -⟩ := (content_range_length hruns hanswer rfl rfl rfl).mpr
    (.inl ⟨1, coherentRange_one⟩)
  obtain ⟨info', hok, hindex, htotal⟩ := (hlength 1).mpr coherentRange_one
  cases hok
  exact ⟨hindex, htotal⟩

/-- A value without a range is taken for a length. -/
theorem length_without_range : ∃ info s',
    (probe config key object url [] 0).run exec (steady (raw "\"v1\"" "bytes */5" [1]))
        Shared.init = some (.ok info, s') ∧
      s'.index.get object = some info ∧ info.totalLen = 5 ∧ ∀ n, ¬ CoherentRange "bytes */5" n := by
  refine ⟨_, _, rfl, ObjectIndex.get_put_self _ _ _, rfl, ?_⟩
  rintro n ⟨before, first, last, digits, after, start, stop, htext, -⟩
  have hdash : '-' ∈ "bytes */5".toList := by
    rw [htext]
    simp
  exact absurd hdash (by decide)

end Scenario

end Cachic
