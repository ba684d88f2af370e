import Cachic.Store.SliceCodec

/-!
# Corrupted slices

One byte of a stored slice has changed.  The checksum covers the payload, so a slice whose magic
number, checksum, length or payload was hit is refused, as long as the checksum tells the two
payloads apart.

The header lies outside the checksum.  A slice whose slice size, total length or generation was
hit is byte for byte another value's encoding, and is loaded as that value.  A header text that
was hit is loaded as another text, unless its bytes are no longer UTF-8.  And the length in front
of a text says where everything behind it begins: with another length the rest is read as other
texts and another payload, and is refused unless it happens to be laid out as such.

`corrupted_slice_refused` is the exact condition.  `Spells` and `Spoilt` say it of the bytes, by
the layout that `encode` writes and without the decoder.
-/

namespace Cachic

open ByteCodec

/-! ## The layout -/

/-- A text that is not as long as an absent one. -/
def TextFits (text : Option String) : Prop := ∀ v, text = some v → v.utf8ByteSize < u32Max

/-- The bytes of a header text. -/
def textBytes (text : Option String) : List UInt8 := sized (text.map utf8Bytes)

/-- What stands behind the header of a value with this payload. -/
def frame (libs : CodeLibs) (payload : List UInt8) : List UInt8 :=
  leBytes 8 (libs.xxh3_64 payload).toNat ++ (leBytes 4 payload.length ++ payload)

/-- Bytes that begin with `n` header texts and, behind them, the payload behind its checksum. -/
def Spells (libs : CodeLibs) (payload : List UInt8) : ℕ → List UInt8 → Prop
  | 0, bytes => payload.length < 2 ^ 32 ∧ ∃ rest, bytes = frame libs payload ++ rest
  | n + 1, bytes => ∃ text rest, TextFits text ∧ bytes = textBytes text ++ rest ∧
      Spells libs payload n rest

/-- A wrong byte at position `j` of some header texts and what follows them, given the bytes as
they are now, leaves nothing that could be loaded. -/
def Spoilt (libs : CodeLibs) : List (Option String) → List UInt8 → ℕ → Prop
  -- behind the header
  | [], _, _ => True
  | text :: texts, other, j =>
      -- in the length of the first text
      if j < 4 then ∀ payload, ¬ Spells libs payload (texts.length + 1) other
      -- in its own bytes
      else if j < optStrLen text then fromUtf8 ((other.drop 4).take (optStrLen text - 4)) = none
      else Spoilt libs texts (other.drop (optStrLen text)) (j - optStrLen text)

section Layout

variable {libs : CodeLibs} {text : Option String} {payload bytes rest : List UInt8} {n : ℕ}

theorem length_textBytes (text : Option String) : (textBytes text).length = optStrLen text := by
  cases text with
  | none => exact length_leBytes 4 u32Max
  | some v => simp [textBytes, sized, optStrLen]

/-- What is read as a text is the text's bytes. -/
theorem readOptStr_eq_ok_iff :
    readOptStr libs bytes = .ok (text, rest) ↔ TextFits text ∧ bytes = textBytes text ++ rest := by
  constructor
  · intro h
    rcases readSized_eq_ok h with ⟨rfl, rfl⟩ | ⟨field, mid, hlen, rfl, hparse⟩
    · refine ⟨?_, rfl⟩
      rintro _ ⟨⟩
    · cases hutf8 : fromUtf8 field with
      | none =>
          rw [hutf8] at hparse
          cases hparse
      | some v =>
          rw [hutf8] at hparse
          cases hparse
          obtain rfl := utf8Bytes_of_fromUtf8 hutf8
          exact ⟨by rintro _ ⟨⟩; exact hlen, rfl⟩
  · rintro ⟨hfits, rfl⟩
    obtain ⟨written, hwrite, -, hreads⟩ := stored_optStr libs hfits
    have hbytes : writeOptStr text = .ok (textBytes text) := by
      cases text with
      | none => rfl
      | some v => exact if_pos (lt_trans (hfits v rfl) (by decide))
    obtain rfl := Except.ok.inj (hbytes.symm.trans hwrite)
    exact hreads.whole rest

/-- A text in front can be taken off in one way only. -/
theorem spells_text (hfits : TextFits text) :
    Spells libs payload (n + 1) (textBytes text ++ rest) ↔ Spells libs payload n rest := by
  constructor
  · rintro ⟨text', rest', hfits', hbytes, hspells⟩
    have hread : readOptStr libs (textBytes text ++ rest) = .ok (text, rest) :=
      readOptStr_eq_ok_iff.mpr ⟨hfits, rfl⟩
    cases hread.symm.trans (readOptStr_eq_ok_iff.mpr ⟨hfits', hbytes⟩)
    exact hspells
  · exact fun hspells => ⟨text, rest, hfits, rfl, hspells⟩

theorem spells_texts {texts : List (Option String)} (hfits : ∀ text ∈ texts, TextFits text) :
    Spells libs payload texts.length (texts.flatMap textBytes ++ rest) ↔
      Spells libs payload 0 rest := by
  induction texts with
  | nil => rfl
  | cons text texts ih =>
      rw [List.flatMap_cons, List.append_assoc, List.length_cons,
        spells_text (hfits text List.mem_cons_self),
        ih fun text h => hfits text (List.mem_cons_of_mem _ h)]

end Layout

namespace SliceHeader

/-- The words in front of the texts. -/
def words (header : SliceHeader) : List UInt8 :=
  leBytes 4 header.sliceSize ++ (leBytes 8 header.totalLen ++ leBytes 4 header.generation)

def texts (header : SliceHeader) : List (Option String) :=
  [header.etag, header.lastModified, header.contentType]

theorem length_words (header : SliceHeader) : header.words.length = 16 := by simp [words]

theorem Fits.texts {header : SliceHeader} (h : header.Fits) :
    ∀ text ∈ header.texts, TextFits text := by
  intro text htext
  simp only [SliceHeader.texts, List.mem_cons, List.not_mem_nil, or_false] at htext
  rcases htext with rfl | rfl | rfl
  · exact h.etag
  · exact h.lastModified
  · exact h.contentType

/-- What is read as a header is the header's bytes. -/
theorem decode_eq_ok {libs : CodeLibs} {header : SliceHeader} {bytes rest : List UInt8}
    (h : decode libs bytes = .ok (header, rest)) :
    header.Fits ∧ bytes = header.words ++ (header.texts.flatMap textBytes ++ rest) := by
  obtain ⟨sliceSize, b1, h1, h⟩ := Decoder.bind_eq_ok.mp h
  obtain ⟨totalLen, b2, h2, h⟩ := Decoder.bind_eq_ok.mp h
  obtain ⟨generation, b3, h3, h⟩ := Decoder.bind_eq_ok.mp h
  obtain ⟨etag, b4, h4, h⟩ := Decoder.bind_eq_ok.mp h
  obtain ⟨lastModified, b5, h5, h⟩ := Decoder.bind_eq_ok.mp h
  obtain ⟨contentType, b6, h6, h⟩ := Decoder.bind_eq_ok.mp h
  cases h
  obtain ⟨hsize, rfl⟩ := readLE_eq_ok.mp h1
  obtain ⟨htotal, rfl⟩ := readLE_eq_ok.mp h2
  obtain ⟨hgeneration, rfl⟩ := readLE_eq_ok.mp h3
  obtain ⟨hetag, rfl⟩ := readOptStr_eq_ok_iff.mp h4
  obtain ⟨hmodified, rfl⟩ := readOptStr_eq_ok_iff.mp h5
  obtain ⟨htype, rfl⟩ := readOptStr_eq_ok_iff.mp h6
  refine ⟨⟨lt_of_lt_of_eq hsize (by norm_num), lt_of_lt_of_eq htotal (by norm_num),
    lt_of_lt_of_eq hgeneration (by norm_num), hetag, hmodified, htype⟩, ?_⟩
  simp [words, texts]

theorem encode_eq_ok {header : SliceHeader} (h : header.Fits) :
    header.encode = .ok (header.words ++ header.texts.flatMap textBytes) := by
  obtain ⟨bytes, hbytes, -, hreads⟩ := SliceHeader.stored ⟨fun _ => 0, fun _ => ""⟩ h
  obtain ⟨-, hlayout⟩ := decode_eq_ok (hreads.whole [])
  rw [List.append_nil, List.append_nil] at hlayout
  rw [hbytes, hlayout]

end SliceHeader

namespace SliceValue

variable {libs : CodeLibs} {value loaded : SliceValue} {bytes rest : List UInt8}

/-- How a value is laid out. -/
def layout (libs : CodeLibs) (value : SliceValue) : List UInt8 :=
  leBytes 4 sliceMagic ++ (value.header.words ++ (value.header.texts.flatMap textBytes ++
    frame libs value.payload))

theorem encode_eq_ok (h : value.Fits) : value.encode libs = .ok (value.layout libs) := by
  rw [encode, SliceHeader.encode_eq_ok h.header]
  refine (if_pos h.payload).trans ?_
  simp only [layout, frame, List.append_assoc]
  rfl

/-- What is loaded is what is laid out in front. -/
theorem decode_eq_ok_iff :
    decode libs bytes = .ok (loaded, rest) ↔ loaded.Fits ∧ bytes = loaded.layout libs ++ rest := by
  constructor
  · intro h
    obtain ⟨magic, body, hmagic, hbody⟩ := Decoder.bind_eq_ok.mp h
    obtain ⟨-, rfl⟩ := readLE_eq_ok.mp hmagic
    split at hbody
    · cases hbody
    next hmagic' =>
      obtain ⟨header, b2, hheader, h2⟩ := Decoder.bind_eq_ok.mp hbody
      obtain ⟨expected, b3, hexpected, h3⟩ := Decoder.bind_eq_ok.mp h2
      obtain ⟨len, b4, hlen, h4⟩ := Decoder.bind_eq_ok.mp h3
      obtain ⟨payload, b5, hpayload, h5⟩ := Decoder.bind_eq_ok.mp h4
      obtain ⟨-, rfl⟩ := readLE_eq_ok.mp hexpected
      obtain ⟨hword, rfl⟩ := readLE_eq_ok.mp hlen
      obtain ⟨rfl, rfl⟩ := readExact_eq_ok.mp hpayload
      split at h5
      · cases h5
      next hsum =>
        cases h5
        obtain ⟨hfits, rfl⟩ := SliceHeader.decode_eq_ok hheader
        refine ⟨⟨hfits, lt_of_lt_of_eq hword (by norm_num)⟩, ?_⟩
        rw [← not_not.mp hsum, not_not.mp hmagic']
        simp [layout, frame]
  · rintro ⟨hfits, rfl⟩
    obtain ⟨bytes, hbytes, -, hreads⟩ := SliceValue.stored libs hfits
    obtain rfl := Except.ok.inj ((encode_eq_ok hfits).symm.trans hbytes)
    exact hreads.whole rest

/-- Behind the magic number and any words, what can be loaded is three texts and a payload. -/
theorem exists_decode_iff {words body payload : List UInt8} (hwords : words.length = 16) :
    (∃ loaded rest, decode libs (leBytes 4 sliceMagic ++ (words ++ body)) = .ok (loaded, rest) ∧
      loaded.payload = payload) ↔ Spells libs payload 3 body := by
  constructor
  · rintro ⟨loaded, rest, hdecode, rfl⟩
    obtain ⟨hfits, hbytes⟩ := decode_eq_ok_iff.mp hdecode
    rw [layout, List.append_assoc, List.append_assoc] at hbytes
    obtain ⟨-, hbody⟩ := List.append_inj (List.append_cancel_left hbytes)
      (hwords.trans loaded.header.length_words.symm)
    rw [hbody, List.append_assoc]
    exact (spells_texts hfits.header.texts).mpr ⟨hfits.payload, rest, rfl⟩
  · rintro ⟨etag, _, hetag, rfl, lastModified, _, hmodified, rfl, contentType, _, htype, rfl, hlen,
      rest, rfl⟩
    -- any sixteen bytes are the words of some header
    obtain ⟨sizeBytes, more, rfl, hsize⟩ : ∃ a b, words = a ++ b ∧ a.length = 4 :=
      ⟨words.take 4, words.drop 4, (List.take_append_drop 4 words).symm, by simp [hwords]⟩
    obtain ⟨lenBytes, genBytes, rfl, hmore⟩ : ∃ a b, more = a ++ b ∧ a.length = 8 :=
      ⟨more.take 8, more.drop 8, (List.take_append_drop 8 more).symm, by
        simp only [List.length_append] at hwords
        simp only [List.length_take]
        omega⟩
    have hgen : genBytes.length = 4 := by
      simp only [List.length_append] at hwords
      omega
    have hword : ∀ (field : List UInt8) (w : ℕ), field.length = w →
        ofLeBytes field < 256 ^ w ∧ leBytes w (ofLeBytes field) = field := by
      rintro field _ rfl
      exact ⟨ofLeBytes_lt field, leBytes_ofLeBytes field⟩
    obtain ⟨hs, hs'⟩ := hword sizeBytes 4 hsize
    obtain ⟨ht, ht'⟩ := hword lenBytes 8 hmore
    obtain ⟨hg, hg'⟩ := hword genBytes 4 hgen
    refine ⟨{ header := { sliceSize := ofLeBytes sizeBytes, totalLen := ofLeBytes lenBytes,
                          generation := ofLeBytes genBytes, etag, lastModified, contentType },
              payload }, rest, decode_eq_ok_iff.mpr ⟨⟨⟨lt_of_lt_of_eq hs (by norm_num),
      lt_of_lt_of_eq ht (by norm_num), lt_of_lt_of_eq hg (by norm_num), hetag, hmodified,
      htype⟩, hlen⟩, ?_⟩, rfl⟩
    simp [layout, SliceHeader.words, SliceHeader.texts, hs', ht', hg']

end SliceValue

/-! ## Behind the words of the header -/

section Behind

variable {libs : CodeLibs} {stored payload tail rest : List UInt8} {i : ℕ}

theorem payload_eq_of_frame (h : stored.length < 256 ^ 4) (h' : payload.length < 256 ^ 4)
    (heq : leBytes 4 stored.length ++ stored = leBytes 4 payload.length ++ (payload ++ rest)) :
    payload = stored := by
  obtain ⟨hlen, hpayload⟩ := List.append_inj heq (by rw [length_leBytes, length_leBytes])
  have hlength : stored.length = payload.length := (leBytes_inj h h').mp hlen
  obtain ⟨hsame, -⟩ := List.append_inj ((List.append_nil stored).trans hpayload) hlength
  exact hsame.symm

/-- A wrong byte behind the header leaves nothing that could be loaded. -/
theorem not_spells_frame (hlen : stored.length < 2 ^ 32)
    (hdiff : DiffersAt (frame libs stored) tail i)
    (hhash : payload ≠ stored → libs.xxh3_64 payload ≠ libs.xxh3_64 stored) :
    ¬ Spells libs payload 0 tail := by
  rintro ⟨hpayload, rest, htail⟩
  rw [frame, List.append_assoc, List.append_assoc] at htail
  have hword : (2 : ℕ) ^ 32 = 256 ^ 4 := by norm_num
  rw [hword] at hlen hpayload
  have hsums : ∀ sum sum' : UInt64, (leBytes 8 sum.toNat).length = (leBytes 8 sum'.toNat).length :=
    fun sum sum' => by rw [length_leBytes, length_leBytes]
  rcases hdiff.append with ⟨sum, hsum, hother⟩ | ⟨field, hfield, -, hother⟩
  · -- the checksum was hit, and the payload is the one it belonged to
    rw [hother] at htail
    obtain ⟨rfl, hrest⟩ := List.append_inj htail
      (hsum.length_eq.trans (hsums (libs.xxh3_64 stored) (libs.xxh3_64 payload)))
    rw [payload_eq_of_frame hlen hpayload hrest] at hsum
    exact hsum.ne rfl
  · rw [hother] at htail
    obtain ⟨hsum, hrest⟩ := List.append_inj htail
      (hsums (libs.xxh3_64 stored) (libs.xxh3_64 payload))
    have hword : ∀ sum : UInt64, sum.toNat < 256 ^ 8 := fun sum =>
      lt_of_lt_of_eq sum.toNat_lt (by norm_num)
    have hsame : libs.xxh3_64 payload = libs.xxh3_64 stored :=
      (UInt64.toNat_inj.mp ((leBytes_inj (hword _) (hword _)).mp hsum)).symm
    obtain rfl : payload = stored := by
      by_contra hne
      exact hhash hne hsame
    -- the field is as long as it was, so nothing follows the payload
    have hlength := hfield.length_eq
    rw [hrest] at hlength
    simp only [List.length_append, length_leBytes] at hlength
    obtain rfl : rest = [] := List.eq_nil_of_length_eq_zero (by omega)
    exact hfield.ne (by rw [hrest, List.append_nil])

/-- A wrong byte in a text itself leaves a text, or bytes that are none. -/
theorem spells_text_hit {v : String} {field : List UInt8} {n : ℕ} (hfits : TextFits (some v))
    (hfield : field.length = (utf8Bytes v).length) :
    Spells libs payload (n + 1) (leBytes 4 (utf8Bytes v).length ++ field ++ rest) ↔
      fromUtf8 field ≠ none ∧ Spells libs payload n rest := by
  cases hutf8 : fromUtf8 field with
  | some w =>
      obtain rfl := utf8Bytes_of_fromUtf8 hutf8
      have hfitsw : TextFits (some w) := by
        rintro _ ⟨⟩
        rw [← length_utf8Bytes, hfield]
        exact hfits v rfl
      rw [← hfield]
      simp only [ne_eq, reduceCtorEq, not_false_eq_true, true_and]
      exact spells_text hfitsw
  | none =>
      refine iff_of_false ?_ fun h => h.1 rfl
      rintro ⟨text, rest', hfits', hbytes, -⟩
      have hlt : (utf8Bytes v).length < u32Max := hfits v rfl
      have hword : ∀ m, m ≤ u32Max → m < 256 ^ 4 := fun m h => lt_of_le_of_lt h (by decide)
      rw [List.append_assoc] at hbytes
      cases text with
      | none =>
          obtain ⟨hlen, -⟩ := List.append_inj hbytes (by rw [length_leBytes]; rfl)
          exact hlt.ne ((leBytes_inj (hword _ hlt.le) (hword _ le_rfl)).mp hlen)
      | some w =>
          have hw : (utf8Bytes w).length < u32Max := hfits' w rfl
          rw [textBytes, Option.map_some, sized, List.append_assoc] at hbytes
          obtain ⟨hlen, hrest⟩ := List.append_inj hbytes (by rw [length_leBytes, length_leBytes])
          have hsame := (leBytes_inj (hword _ hlt.le) (hword _ hw.le)).mp hlen
          obtain ⟨rfl, -⟩ := List.append_inj hrest (hfield.trans hsame)
          rw [fromUtf8_utf8Bytes] at hutf8
          cases hutf8

/-- **Where a wrong byte behind the words leaves nothing to load.** -/
theorem spoilt_iff {texts : List (Option String)} (hfits : ∀ text ∈ texts, TextFits text)
    (hlen : stored.length < 2 ^ 32)
    (hdiff : DiffersAt (texts.flatMap textBytes ++ frame libs stored) tail i)
    (hhash : ∀ payload, Spells libs payload texts.length tail → payload ≠ stored →
      libs.xxh3_64 payload ≠ libs.xxh3_64 stored) :
    (∀ payload, ¬ Spells libs payload texts.length tail) ↔ Spoilt libs texts tail i := by
  -- on the texts; the byte is in the first one, or behind it and then the first can be taken off
  induction texts generalizing tail i with
  | nil =>
      refine iff_of_true (fun payload hspells => ?_) trivial
      exact not_spells_frame hlen hdiff (hhash payload hspells) hspells
  | cons text texts ih =>
      have htext := hfits text List.mem_cons_self
      have htexts : ∀ text ∈ texts, TextFits text := fun text h =>
        hfits text (List.mem_cons_of_mem _ h)
      rw [List.flatMap_cons, List.append_assoc] at hdiff
      rw [Spoilt]
      rcases hdiff.append with ⟨hit, hhit, rfl⟩ | ⟨behind, hbehind, hle, rfl⟩
      · have hlt := hhit.lt_length
        rw [length_textBytes] at hlt
        by_cases hfour : i < 4
        · rw [if_pos hfour]
          rfl
        · rw [if_neg hfour, if_pos hlt]
          cases text with
          | none => exact absurd hlt hfour
          | some v =>
              rcases hhit.append with ⟨word, hword, -⟩ | ⟨field, hfield, -, rfl⟩
              · exact absurd (lt_of_lt_of_eq hword.lt_length (length_leBytes 4 _)) hfour
              · have hsize : optStrLen (some v) - 4 = field.length := by
                  simp [optStrLen, hfield.length_eq]
                simp only [List.length_cons, spells_text_hit htext hfield.length_eq]
                rw [hsize, List.append_assoc, List.drop_left' (length_leBytes 4 _), List.take_left]
                constructor
                · intro hnone
                  by_contra hsome
                  refine hnone stored ⟨hsome, (spells_texts htexts).mpr ⟨hlen, [], ?_⟩⟩
                  rw [List.append_nil]
                · exact fun hnone payload h => h.1 hnone
      · rw [length_textBytes] at hbehind hle
        have hfour : ¬ i < 4 := by
          rw [optStrLen] at hle
          omega
        rw [if_neg hfour, if_neg (not_lt.mpr hle), List.drop_left' (length_textBytes text),
          List.length_cons]
        simp only [List.length_cons, spells_text htext] at hhash ⊢
        exact ih htexts hbehind hhash

end Behind

/-- **A corrupted slice is refused exactly where it cannot be read as another.**  One byte has
changed, and the checksum tells the payload that would be loaded from the one that was stored.
Then nothing, or the value itself, is loaded iff the byte is in the magic number, or behind the
words of the header in a place where it leaves nothing that could be loaded: behind the header,
in a text that is no longer UTF-8, or in the length of a text behind which the bytes are no
longer texts and a payload with its checksum. -/
theorem corrupted_slice_refused (libs : CodeLibs) (value : SliceValue) (hfits : value.Fits)
    (bytes : List UInt8) (hencode : value.encode libs = .ok bytes) (other : List UInt8) (i : ℕ)
    (hdiff : DiffersAt bytes other i)
    (hhash : ∀ loaded rest, SliceValue.decode libs other = .ok (loaded, rest) →
      loaded.payload ≠ value.payload →
      libs.xxh3_64 loaded.payload ≠ libs.xxh3_64 value.payload) :
    ((∃ e, SliceValue.decode libs other = .error e) ∨
        ∃ rest, SliceValue.decode libs other = .ok (value, rest)) ↔
      i < 4 ∨ 20 ≤ i ∧ Spoilt libs
        [value.header.etag, value.header.lastModified, value.header.contentType]
        (other.drop 20) (i - 20) := by
  obtain rfl := Except.ok.inj ((SliceValue.encode_eq_ok hfits).symm.trans hencode)
  -- other bytes are never read as the value itself
  have hself : ¬ ∃ rest, SliceValue.decode libs other = .ok (value, rest) := by
    rintro ⟨rest, hdecode⟩
    obtain ⟨-, hother⟩ := SliceValue.decode_eq_ok_iff.mp hdecode
    have hlength := hdiff.length_eq
    rw [hother, List.length_append] at hlength
    obtain rfl : rest = [] := List.eq_nil_of_length_eq_zero (by omega)
    exact hdiff.ne (by rw [hother, List.append_nil])
  have herror : (∃ e, SliceValue.decode libs other = .error e) ↔
      ¬ ∃ loaded rest, SliceValue.decode libs other = .ok (loaded, rest) := by
    rcases SliceValue.decode libs other with e | ⟨loaded, rest⟩ <;> simp
  rw [or_iff_left hself, herror]
  rcases hdiff.append with ⟨magic, hmagic, rfl⟩ | ⟨body, hbody, hle, rfl⟩
  · -- the magic number was hit, and would have to be found
    refine iff_of_true ?_ (.inl (lt_of_lt_of_eq hmagic.lt_length (length_leBytes 4 _)))
    rintro ⟨loaded, rest, hdecode⟩
    obtain ⟨-, hother⟩ := SliceValue.decode_eq_ok_iff.mp hdecode
    rw [SliceValue.layout, List.append_assoc] at hother
    obtain ⟨rfl, -⟩ := List.append_inj hother (hmagic.length_eq.trans rfl)
    exact hmagic.ne rfl
  rw [length_leBytes] at hbody hle
  rw [or_iff_right (not_lt.mpr hle)]
  have hloads : ∀ {words rest : List UInt8}, words.length = 16 →
      ((∃ loaded more, SliceValue.decode libs (leBytes 4 sliceMagic ++ (words ++ rest)) =
        .ok (loaded, more)) ↔ ∃ payload, Spells libs payload 3 rest) := by
    intro words rest hwords
    simp only [← SliceValue.exists_decode_iff hwords]
    exact ⟨fun ⟨loaded, more, h⟩ => ⟨_, loaded, more, h, rfl⟩,
      fun ⟨_, loaded, more, h, _⟩ => ⟨loaded, more, h⟩⟩
  rcases hbody.append with ⟨words, hwords, rfl⟩ | ⟨tail, htail, hle', rfl⟩
  · -- other words are the words of another header
    have hlt := hwords.lt_length
    rw [value.header.length_words] at hlt
    refine iff_of_false (not_not.mpr ?_) (by omega)
    rw [hloads (hwords.length_eq.trans value.header.length_words)]
    exact ⟨value.payload, (spells_texts hfits.header.texts).mpr
      ⟨hfits.payload, [], (List.append_nil _).symm⟩⟩
  · rw [value.header.length_words] at htail hle'
    have hdrop : (leBytes 4 sliceMagic ++ (value.header.words ++ tail)).drop 20 = tail := by
      rw [← List.append_assoc]
      exact List.drop_left' (by simp [value.header.length_words])
    have hplace : i - 4 - 16 = i - 20 := by omega
    rw [hplace] at htail
    rw [hdrop, hloads value.header.length_words, not_exists, and_iff_right (by omega)]
    refine spoilt_iff hfits.header.texts hfits.payload htail fun payload hspells => ?_
    obtain ⟨loaded, rest, hdecode, rfl⟩ :=
      (SliceValue.exists_decode_iff value.header.length_words).mpr hspells
    exact hhash loaded rest hdecode

namespace Scenario

/-- A checksum that tells the payload of `shortValue` from every other. -/
def telling : CodeLibs where
  xxh3_64 := fun bytes => if bytes = [1, 2, 3] then 1 else 0
  utf8Error := fun _ => "invalid utf-8"

/-- The bytes of `shortValue`, but for the lowest byte of its total length and the first of its
payload. -/
def shortBytes (total first : UInt8) : List UInt8 :=
  [0x31, 0x43, 0x41, 0x43, 0, 4, 0, 0, total, 0x27, 0, 0, 0, 0, 0, 0, 3, 0, 0, 0,
    0, 0, 0, 0, 255, 255, 255, 255, 10, 0, 0, 0, 116, 101, 120, 116, 47, 112, 108, 97, 105, 110,
    1, 0, 0, 0, 0, 0, 0, 0, 3, 0, 0, 0, first, 2, 3]

theorem encode_shortValue : shortValue.encode telling = .ok (shortBytes 0x10 1) := by
  decide +kernel

/-- A byte of the payload has changed. -/
theorem corrupted_slice_refused_payload :
    (∃ e, SliceValue.decode telling (shortBytes 0x10 9) = .error e) ∨
      ∃ rest, SliceValue.decode telling (shortBytes 0x10 9) = .ok (shortValue, rest) :=
  (corrupted_slice_refused telling shortValue ⟨emptyTag_fits, by decide⟩ (shortBytes 0x10 1)
    encode_shortValue (shortBytes 0x10 9) 54
    ⟨(shortBytes 0x10 1).take 54, 1, 9, [2, 3], rfl, rfl, by decide, rfl⟩
    fun loaded _ _ hne => by
      have hne : loaded.payload ≠ [1, 2, 3] := hne
      show (if loaded.payload = [1, 2, 3] then (1 : UInt64) else 0) ≠ 1
      rw [if_neg hne]
      decide).mpr (.inr ⟨by decide, by
        rw [Spoilt, if_neg (by decide), if_neg (by decide), Spoilt, if_neg (by decide),
          if_neg (by decide), Spoilt, if_neg (by decide), if_neg (by decide)]
        trivial⟩)

/-- One byte of the stored total length has changed, and the slice is loaded with that length. -/
theorem corrupted_total_len_loaded :
    shortValue.encode telling = .ok (shortBytes 0x10 1) ∧
      DiffersAt (shortBytes 0x10 1) (shortBytes 0x11 1) 8 ∧
      SliceValue.decode telling (shortBytes 0x11 1) =
        .ok ({ shortValue with header := { emptyTag with totalLen := 10001 } }, []) ∧
      shortValue.header.totalLen = 10000 :=
  ⟨encode_shortValue, ⟨(shortBytes 0x10 1).take 8, 0x10, 0x11, (shortBytes 0x10 1).drop 9, rfl,
    rfl, by decide, rfl⟩, by decide +kernel, rfl⟩

end Scenario

end Cachic
