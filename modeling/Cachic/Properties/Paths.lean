import Cachic.Lib.Path
import Cachic.Services.Key

/-!
# Normal paths

`normalise_path` decodes the escapes of a path and resolves its segments on a stack.  Decoding
undoes any way to escape a text, and what comes out is normal: a path of plain segments, with
a slash at the end or not, that is left alone when it is normalised again.

Against RFC 3986 there is one difference.  The code looks at the last character of the decoded
path to decide on the slash at the end, so a path that ends in `/.` or `/..` has none, where
the RFC keeps it.
-/

namespace Cachic

open ByteCodec UrlPath

/-! ## Escapes -/

/-- A hexadecimal digit, in either case. -/
def hexByte (upper : Bool) (n : ℕ) : UInt8 :=
  if n < 10 then UInt8.ofNat (48 + n) else UInt8.ofNat ((if upper then 55 else 87) + n)

/-- A way to write bytes: each as it is or as an escape.  A percent sign is always escaped. -/
inductive Escapes : List UInt8 → List UInt8 → Prop
  | nil : Escapes [] []
  | literal {b : UInt8} {bytes written : List UInt8} :
      b ≠ 37 → Escapes bytes written → Escapes (b :: bytes) (b :: written)
  | escape (b : UInt8) (upperHigh upperLow : Bool) {bytes written : List UInt8} :
      Escapes bytes written →
      Escapes (b :: bytes)
        (37 :: hexByte upperHigh (b.toNat / 16) :: hexByte upperLow (b.toNat % 16) :: written)

/-- Somewhere in the bytes a percent sign has two hexadecimal digits behind it. -/
def HasEscape (bytes : List UInt8) : Prop :=
  ∃ before after upperHigh upperLow high low, high < 16 ∧ low < 16 ∧
    bytes = before ++ 37 :: hexByte upperHigh high :: hexByte upperLow low :: after

theorem hexDigit_hexByte (upper : Bool) {n : ℕ} (h : n < 16) :
    hexDigit (hexByte upper n) = some n := by
  have hall : ∀ upper : Bool, ∀ n : Fin 16, hexDigit (hexByte upper n) = some n.val := by decide
  exact hall upper ⟨n, h⟩

theorem hexDigit_eq_some {b : UInt8} {n : ℕ} (h : hexDigit b = some n) :
    n < 16 ∧ ∃ upper, b = hexByte upper n := by
  have hb := b.toNat_lt
  have hbyte : b = UInt8.ofNat b.toNat := UInt8.ofNat_toNat.symm
  unfold hexDigit at h
  split at h
  case isTrue hrange =>
      cases h
      refine ⟨by omega, false, ?_⟩
      rw [hexByte, if_pos (by omega), Nat.add_sub_cancel' hrange.1]
      exact hbyte
  case isFalse =>
      split at h
      case isTrue hrange =>
          cases h
          refine ⟨by omega, false, ?_⟩
          rw [hexByte, if_neg (by omega)]
          convert hbyte using 2
          simp
          omega
      case isFalse =>
          split at h
          case isTrue hrange =>
              cases h
              refine ⟨by omega, true, ?_⟩
              rw [hexByte, if_neg (by omega)]
              convert hbyte using 2
              simp
              omega
          case isFalse => cases h

theorem decodeEscapes_cons_of_ne {b : UInt8} (h : b ≠ 37) (rest : List UInt8) :
    decodeEscapes (b :: rest) = b :: decodeEscapes rest := by
  match rest with
  | [] => rfl
  | [_] => rfl
  | high :: low :: rest => rw [decodeEscapes, if_neg h]

theorem decodeEscapes_escape {high low : UInt8} {h l : ℕ} (hhigh : hexDigit high = some h)
    (hlow : hexDigit low = some l) (rest : List UInt8) :
    decodeEscapes (37 :: high :: low :: rest) =
      UInt8.ofNat (16 * h + l) :: decodeEscapes rest := by
  rw [decodeEscapes, if_pos rfl, hhigh, hlow]

/-- Decoding undoes every way to write the bytes. -/
theorem Escapes.decodeEscapes_eq {bytes written : List UInt8} (h : Escapes bytes written) :
    decodeEscapes written = bytes := by
  induction h with
  | nil => rfl
  | literal hb _ ih => rw [decodeEscapes_cons_of_ne hb, ih]
  | escape b upperHigh upperLow _ ih =>
      have hb := b.toNat_lt
      rw [decodeEscapes_escape (hexDigit_hexByte upperHigh (by omega))
        (hexDigit_hexByte upperLow (by omega)), ih, Nat.div_add_mod, UInt8.ofNat_toNat]

/-- Bytes without a whole escape are left alone. -/
theorem decodeEscapes_of_not_hasEscape {bytes : List UInt8} (h : ¬ HasEscape bytes) :
    decodeEscapes bytes = bytes := by
  have htail : ∀ b rest, ¬ HasEscape (b :: rest) → ¬ HasEscape rest := by
    rintro b rest h ⟨before, after, upperHigh, upperLow, high, low, hhigh, hlow, heq⟩
    exact h ⟨b :: before, after, upperHigh, upperLow, high, low, hhigh, hlow, by rw [heq]; rfl⟩
  fun_induction decodeEscapes bytes with
  | case1 high low rest hi lo hlow hhigh ih =>
      obtain ⟨hlt, upperHigh, rfl⟩ := hexDigit_eq_some hhigh
      obtain ⟨hlt', upperLow, rfl⟩ := hexDigit_eq_some hlow
      exact absurd ⟨[], rest, upperHigh, upperLow, hi, lo, hlt, hlt', rfl⟩ h
  | case2 high low rest hnot ih => rw [ih (htail _ _ h)]
  | case3 b high low rest hb ih => rw [ih (htail _ _ h)]
  | case4 b rest hrest ih => rw [ih (htail _ _ h)]
  | case5 => rfl

theorem HasEscape.mem {bytes : List UInt8} (h : HasEscape bytes) : 37 ∈ bytes := by
  obtain ⟨before, after, -, -, -, -, -, -, rfl⟩ := h
  simp

/-- The look for a percent sign is a shortcut. -/
theorem percentDecode_eq (input : String) :
    percentDecode input = (fromUtf8 (decodeEscapes (utf8Bytes input))).getD input := by
  unfold percentDecode
  split
  case isTrue hnone =>
      have hbytes : 37 ∉ utf8Bytes input := fun h => hnone (asciiChar_mem h (by decide))
      rw [decodeEscapes_of_not_hasEscape fun h => hbytes h.mem, fromUtf8_utf8Bytes,
        Option.getD_some]
  case isFalse => rfl

theorem percentDecode_of_decoded {input text : String}
    (h : decodeEscapes (utf8Bytes input) = utf8Bytes text) : percentDecode input = text := by
  rw [percentDecode_eq, h, fromUtf8_utf8Bytes, Option.getD_some]

theorem percentDecode_of_not_mem {input : String} (h : '%' ∉ input.toList) :
    percentDecode input = input := if_pos h

/-- A slash at the start of a path is still there when it is decoded. -/
theorem head?_percentDecode {path : String} (h : path.toList.head? = some '/') :
    (percentDecode path).toList.head? = some '/' := by
  rw [percentDecode_eq]
  cases hdecoded : fromUtf8 (decodeEscapes (utf8Bytes path)) with
  | none => exact h
  | some text =>
      obtain ⟨rest, hrest⟩ := List.head?_eq_some_iff.mp h
      have hbytes : utf8Bytes path = 47 :: rest.flatMap String.utf8EncodeChar := by
        rw [utf8Bytes_eq, hrest]
        rfl
      have htext := utf8Bytes_of_fromUtf8 hdecoded
      rw [hbytes, decodeEscapes_cons_of_ne (by decide)] at htext
      exact head?_of_utf8Bytes htext (by decide)

/-! ## Segments -/

/-- The segments of a normalised path. -/
def normalSegments (text : List Char) : List (List Char) :=
  let kept := (text.splitOn '/').foldl push []
  if kept = [] then [[]] else if text.getLast? = some '/' then kept ++ [[]] else kept

theorem toList_normalisePath (path : String) :
    (normalisePath path).toList = join (normalSegments (percentDecode path).toList) := by
  have hkept : ∀ segments, resolveSegments segments = segments.foldl push [] := fun _ => rfl
  have hout : ∀ kept : List (List Char), (kept.flatMap fun segment => '/' :: segment) = join kept :=
    fun _ => rfl
  simp only [normalisePath, hkept, hout, join_eq_nil_iff, String.toList_ofList, normalSegments]
  split_ifs
  · simp
  · simp
  · rfl

theorem mem_kept {text segment : List Char} (h : segment ∈ (text.splitOn '/').foldl push []) :
    Plain segment ∧ '/' ∉ segment := by
  rcases mem_of_mem_foldl_push h with h | ⟨hmem, hplain⟩
  · exact absurd h List.not_mem_nil
  · exact ⟨hplain, not_mem_of_mem_splitOn hmem⟩

/-- Plain segments, and an empty one at most at the end. -/
theorem exists_normalSegments (text : List Char) :
    ∃ kept, (∀ segment ∈ kept, Plain segment ∧ '/' ∉ segment) ∧
      (normalSegments text = kept ++ [[]] ∨ kept ≠ [] ∧ normalSegments text = kept) := by
  refine ⟨(text.splitOn '/').foldl push [], fun _ => mem_kept, ?_⟩
  simp only [normalSegments]
  split_ifs with hnone hslash
  · exact .inl (by rw [hnone]; rfl)
  · exact .inl rfl
  · exact .inr ⟨hnone, rfl⟩

theorem getLast?_segment {before last : List Char} (h : '/' ∉ last) :
    (before ++ '/' :: last).getLast? = some '/' ↔ last = [] := by
  constructor
  · intro hlast
    by_contra hne
    rw [List.getLast?_append_of_ne_nil _ (by simp), List.getLast?_cons_of_ne_nil hne] at hlast
    exact h (List.mem_of_getLast? hlast)
  · rintro rfl
    simp

theorem normalSegments_ne_nil (text : List Char) : normalSegments text ≠ [] := by
  obtain ⟨kept, -, h | ⟨hne, h⟩⟩ := exists_normalSegments text
  · simp [h]
  · exact h ▸ hne

theorem normalSegments_slash {text segment : List Char} (h : segment ∈ normalSegments text) :
    '/' ∉ segment := by
  obtain ⟨kept, hkept, hsegments | ⟨-, hsegments⟩⟩ := exists_normalSegments text
  · rcases List.mem_append.mp (hsegments ▸ h) with h | h
    · exact (hkept segment h).2
    · simp [List.mem_singleton.mp h]
  · exact (hkept segment (hsegments ▸ h)).2

/-- The segments of a normal path are normal. -/
theorem normalSegments_join (text : List Char) :
    normalSegments (join (normalSegments text)) = normalSegments text := by
  have hsplit : (join (normalSegments text)).splitOn '/' = [] :: normalSegments text := by
    obtain ⟨rest, hrest⟩ : ∃ rest, join (normalSegments text) = '/' :: rest :=
      ⟨_, join_eq_intercalate (normalSegments_ne_nil text)⟩
    rw [hrest, List.splitOn_cons_eq_if_modifyHead, if_pos (by simp),
      splitOn_of_join (fun _ => normalSegments_slash) (normalSegments_ne_nil text) hrest]
  have hkept : ∀ kept : List (List Char), (∀ segment ∈ kept, Plain segment ∧ '/' ∉ segment) →
      kept.foldl push [] = kept := fun kept h =>
    foldl_push_of_plain [] fun segment hs => (h segment hs).1
  obtain ⟨kept, hplain, hsegments | ⟨hne, hsegments⟩⟩ := exists_normalSegments text
  · rw [normalSegments, hsplit, List.foldl_cons, push_nil, hsegments, List.foldl_append,
      hkept kept hplain]
    simp
  · rw [normalSegments, hsplit, List.foldl_cons, push_nil, hsegments, hkept kept hplain]
    cases kept using List.reverseRecOn with
    | nil => exact absurd rfl hne
    | append_singleton kept last =>
        obtain ⟨hlast, hslash⟩ := hplain last (by simp)
        have hend : (join (kept ++ [last])).getLast? ≠ some '/' := by
          rw [join_append, join_cons, join_nil, List.append_nil, Ne, getLast?_segment hslash]
          exact hlast.1
        rw [if_neg hne, if_neg hend]

/-- Normalising is canonical: it undoes every way to escape a path, leaves alone what is not
an escape or not text, and what it makes is a normal path. -/
theorem normalisePath_canonical :
    (∀ text written : String, Escapes (utf8Bytes text) (utf8Bytes written) →
      percentDecode written = text ∧
        ('%' ∉ text.toList → normalisePath written = normalisePath text)) ∧
    (∀ input : String, ¬ HasEscape (utf8Bytes input) → percentDecode input = input) ∧
    (∀ input : String, fromUtf8 (decodeEscapes (utf8Bytes input)) = none →
      percentDecode input = input) ∧
    ∀ path : String,
      (∃ rest, (normalisePath path).toList = '/' :: rest ∧
        (∀ segment ∈ (rest.splitOn '/').dropLast, Plain segment) ∧
        ∀ last ∈ (rest.splitOn '/').getLast?, last = [] ∨ Plain last) ∧
      ('%' ∉ (normalisePath path).toList →
        normalisePath (normalisePath path) = normalisePath path) := by
  refine ⟨fun text written h => ?_, fun input h => ?_, fun input h => ?_, fun path => ⟨?_, ?_⟩⟩
  · have hdecode := percentDecode_of_decoded h.decodeEscapes_eq
    refine ⟨hdecode, fun hplain => ?_⟩
    rw [normalisePath, normalisePath, hdecode, percentDecode_of_not_mem hplain]
  · exact percentDecode_of_decoded (decodeEscapes_of_not_hasEscape h)
  · rw [percentDecode_eq, h, Option.getD_none]
  · have hne := normalSegments_ne_nil (percentDecode path).toList
    have hjoin := join_eq_intercalate hne
    refine ⟨_, (toList_normalisePath path).trans hjoin, ?_⟩
    rw [splitOn_of_join (fun _ => normalSegments_slash) hne hjoin]
    obtain ⟨kept, hplain, hsegments | ⟨-, hsegments⟩⟩ :=
      exists_normalSegments (percentDecode path).toList
    · simp only [hsegments, List.dropLast_concat, List.getLast?_concat, Option.mem_some_iff]
      exact ⟨fun segment hs => (hplain segment hs).1, fun last hlast => .inl hlast.symm⟩
    · rw [hsegments]
      exact ⟨fun segment hs => (hplain segment (List.mem_of_mem_dropLast hs)).1,
        fun last hlast => .inr (hplain last (List.mem_of_getLast? hlast)).1⟩
  · intro hplain
    apply String.toList_inj.mp
    rw [toList_normalisePath (normalisePath path), percentDecode_of_not_mem hplain,
      toList_normalisePath path, normalSegments_join]

namespace Scenario

/-- A letter, and both bytes of a character of two, escaped in either case. -/
theorem normalisePath_canonical_escaped :
    percentDecode "/%61%C3%a9" = "/a\u00e9" ∧
      normalisePath "/%61%C3%a9" = normalisePath "/a\u00e9" := by
  have hbytes : utf8Bytes "/a\u00e9" = [47, 97, 195, 169] := by decide
  have hwritten : utf8Bytes "/%61%C3%a9" = [47, 37, 54, 49, 37, 67, 51, 37, 97, 57] := by decide
  have hescapes : Escapes (utf8Bytes "/a\u00e9") (utf8Bytes "/%61%C3%a9") := by
    rw [hbytes, hwritten]
    exact .literal (by decide)
      (.escape 97 false false (.escape 195 true false (.escape 169 false false .nil)))
  obtain ⟨hdecode, hnormal⟩ := normalisePath_canonical.1 "/a\u00e9" "/%61%C3%a9" hescapes
  exact ⟨hdecode, hnormal (by decide)⟩

end Scenario

/-! ## RFC 3986 -/

/-- The text ends in a dot segment. -/
def EndsInDots (text : List Char) : Prop := ['/', '.'] <:+ text ∨ ['/', '.', '.'] <:+ text

theorem endsInDots_iff {before last : List Char} (h : '/' ∉ last) :
    EndsInDots (before ++ '/' :: last) ↔ IsDots last := by
  have hone : ∀ dots : List Char, '/' ∉ dots →
      ('/' :: dots <:+ before ++ '/' :: last ↔ last = dots) := by
    intro dots hdots
    constructor
    · rintro ⟨front, hfront⟩
      exact (last_segment_unique hfront hdots h).2.symm
    · rintro rfl
      exact List.suffix_append before _
  rw [EndsInDots, IsDots, hone ['.'] (by decide), hone ['.', '.'] (by decide)]

/-- What the last segment of a decoded path decides. -/
theorem normalSegments_concat {segments : List (List Char)} {last : List Char}
    (hslash : ∀ segment ∈ segments ++ [last], '/' ∉ segment) :
    normalSegments (join (segments ++ [last])) =
      let kept := push (segments.foldl push []) last
      if kept = [] then [[]] else if last = [] then kept ++ [[]] else kept := by
  obtain ⟨rest, hrest⟩ := exists_join_concat segments last
  have hsplit : (join (segments ++ [last])).splitOn '/' = [] :: (segments ++ [last]) := by
    rw [hrest, List.splitOn_cons_eq_if_modifyHead, if_pos (by simp),
      splitOn_of_join hslash (by simp) hrest]
  have hend : (join (segments ++ [last])).getLast? = some '/' ↔ last = [] := by
    rw [join_append, join_cons, join_nil, List.append_nil,
      getLast?_segment (hslash last (by simp))]
  simp only [normalSegments, hsplit, hend, List.foldl_cons, push_nil, List.foldl_append,
    List.foldl_nil]

/-- The code and the RFC end a path in the same way unless it ends in dots and names
something. -/
theorem join_eq_finish_iff {kept : List (List Char)} {last : List Char}
    (hplain : ∀ segment ∈ push kept last, Plain segment) :
    join (if push kept last = [] then [[]]
        else if last = [] then push kept last ++ [[]] else push kept last) =
        join (finish kept last) ↔
      ¬ IsDots last ∨ push kept last = [] := by
  unfold finish
  by_cases hroot : push kept last = []
  · have hlast : ¬ Plain last := fun h => by
      rw [push_of_plain kept h] at hroot
      simp at hroot
    simp [hroot, hlast]
  · rw [if_neg hroot]
    by_cases hempty : last = []
    · subst hempty
      simp [Plain, IsDots]
    · rw [if_neg hempty]
      by_cases hdots : IsDots last
      · have hlast : ¬ Plain last := fun h => h.2 hdots
        simp [hlast, hdots, hroot]
      · have hlast : Plain last := ⟨hempty, hdots⟩
        simp [hlast, hdots]

/-- **Dot segments.**  A path is normalised as the RFC removes its dot segments exactly when it
does not end in one, or when no segment of it is left: then both sides are the root. -/
theorem normalisePath_dot_segments {path : String} (hpath : path.toList.head? = some '/') :
    (normalisePath path).toList =
        removeDotSegments (mergeSlashes (percentDecode path).toList) ↔
      ¬ EndsInDots (mergeSlashes (percentDecode path).toList) ∨
        ClimbsAway ((percentDecode path).toList.splitOn '/') := by
  obtain ⟨rest, hrest⟩ := List.head?_eq_some_iff.mp (head?_percentDecode hpath)
  obtain ⟨segments, last, hsegments⟩ : ∃ segments last, rest.splitOn '/' = segments ++ [last] :=
    ⟨_, _, (List.dropLast_concat_getLast (List.splitOn_ne_nil '/' rest)).symm⟩
  have hslash : ∀ segment ∈ segments ++ [last], '/' ∉ segment := fun segment h =>
    not_mem_of_mem_splitOn (hsegments ▸ h)
  have hlast : '/' ∉ last := hslash last (by simp)
  have hdecoded : (percentDecode path).toList = join (segments ++ [last]) := by
    rw [hrest, ← hsegments, join_splitOn]
  have hmerged : mergeSlashes (percentDecode path).toList =
      join (segments.filter (· ≠ []) ++ [last]) := by
    rw [hdecoded, mergeSlashes_join (fun s hs => hslash s (List.mem_append_left _ hs)) hlast]
  have hplain : ∀ segment ∈ push (segments.foldl push []) last, Plain segment := fun segment h => by
    have hconcat : push (segments.foldl push []) last = (segments ++ [last]).foldl push [] := by
      simp
    rcases mem_of_mem_foldl_push (hconcat ▸ h) with h | h
    · exact absurd h List.not_mem_nil
    · exact h.2
  have hnormal := toList_normalisePath path
  rw [hdecoded, normalSegments_concat hslash] at hnormal
  have hroot : ClimbsAway ((percentDecode path).toList.splitOn '/') ↔
      push (segments.foldl push []) last = [] := by
    have hsplit : (percentDecode path).toList.splitOn '/' = [] :: (segments ++ [last]) := by
      rw [hrest, List.splitOn_cons_eq_if_modifyHead, if_pos (by simp), hsegments]
    have hnil := @foldl_push_eq_nil_iff ([] :: (segments ++ [last])) []
    rw [List.foldl_cons, push_nil, List.foldl_append, List.foldl_cons, List.foldl_nil] at hnil
    rw [hsplit, hnil]
    exact ⟨fun h => ⟨by simpa using h _ List.suffix_rfl, h⟩, And.right⟩
  have hrfc : removeDotSegments (mergeSlashes (percentDecode path).toList) =
      join (finish (segments.foldl push []) last) := by
    rw [hmerged, removeDotSegments_join _ hlast, foldl_push_filter]
    intro segment h
    obtain ⟨hmem, hne⟩ := List.mem_filter.mp h
    exact ⟨by simpa using hne, hslash segment (List.mem_append_left _ hmem)⟩
  have hdots : EndsInDots (mergeSlashes (percentDecode path).toList) ↔ IsDots last := by
    rw [hmerged, join_append, join_cons, join_nil, List.append_nil, endsInDots_iff hlast]
  rw [hrfc, hdots, hroot, hnormal, join_eq_finish_iff hplain]

namespace Scenario

theorem normalisePath_dot_segments_inside :
    (normalisePath "/a/./%2e%2e/b//c/").toList =
      removeDotSegments (mergeSlashes (percentDecode "/a/./%2e%2e/b//c/").toList) := by
  refine (normalisePath_dot_segments (by decide)).mpr (.inl ?_)
  rw [EndsInDots]
  decide

/-- The RFC keeps the slash before a dot segment at the end. -/
theorem normalisePath_dots_at_end :
    normalisePath "/a/." = "/a" ∧ normalisePath "/a/b/.." = "/a" ∧
      removeDotSegments (mergeSlashes (percentDecode "/a/.").toList) = "/a/".toList ∧
      removeDotSegments (mergeSlashes (percentDecode "/a/b/..").toList) = "/a/".toList := by
  decide

end Scenario

end Cachic
