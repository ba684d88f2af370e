import Cachic.Store.IndexCodec

/-!
# Corrupted index entries

`index_codec_round_trip` is about entries the encoder wrote.  Here the bytes are anything, and
the question is which of them the decoder takes for an entry.  It takes exactly the raw entries
whose key is a text (`decodeFrom_eq_ok_iff`), so that what it returns could be compared with
what is stored.

For the words, the flags and the key the two agree.  A validator or a content type does not
have to: the cursor folds "stored, but not UTF-8" into "absent", and an entry with such a text
is read as one without it.
-/

namespace Cachic

open ByteCodec

/-! ## What the decoder takes for an entry -/

/-- What went wrong is said of the entry it went wrong with. -/
def Blames (id : ObjectId) (e : IndexError) : Prop := ∃ reason, e = .corrupt (hex id) reason

variable {id : ObjectId} {bytes rest : List UInt8} {field : String}

theorem truncated_eq_ok {α : Type} {read : Decoder Unit α} {a : α} :
    ObjectMeta.truncated id field read bytes = .ok (a, rest) ↔ read bytes = .ok (a, rest) :=
  Decoder.mapError_eq_ok

theorem failsIn_truncated {α : Type} (id : ObjectId) (field : String) (read : Decoder Unit α) :
    (ObjectMeta.truncated id field read).FailsIn (Blames id) :=
  .mapError read fun _ => ⟨_, rfl⟩

/-- A word was read, and with it everything behind it. -/
theorem bind_word_eq_ok {β : Type} {w : ℕ} {next : ℕ → Decoder IndexError β} {b : β}
    (h : (ObjectMeta.truncated id field (readLE () w) >>= next) bytes = .ok (b, rest)) :
    ∃ (word : Fin (256 ^ w)) (mid : List UInt8), bytes = leBytes w word ++ mid ∧
      next word mid = .ok (b, rest) := by
  obtain ⟨n, mid, hread, hnext⟩ := Decoder.bind_eq_ok.mp h
  obtain ⟨hlt, hbytes⟩ := readLE_eq_ok.mp (truncated_eq_ok.mp hread)
  exact ⟨⟨n, hlt⟩, mid, hbytes, hnext⟩

/-- A text was read, whether or not it was found to be one. -/
theorem bind_text_eq_ok {β : Type} {next : Option String → Decoder IndexError β} {b : β}
    (h : (ObjectMeta.truncated id field Cursor.string >>= next) bytes = .ok (b, rest)) :
    ∃ (text : RawText) (mid : List UInt8), bytes = text.bytes ++ mid ∧
      next text.read mid = .ok (b, rest) := by
  obtain ⟨s, mid, hread, hnext⟩ := Decoder.bind_eq_ok.mp h
  rcases readSized_eq_ok (truncated_eq_ok.mp hread) with
    ⟨hbytes, rfl⟩ | ⟨stored, mid', hlt, hbytes, hs⟩
  · exact ⟨none, mid, hbytes, hnext⟩
  · cases hs
    exact ⟨some ⟨stored, hlt⟩, mid, hbytes, hnext⟩

theorem exists_raw_of_decodeFrom {info : ObjectMeta}
    (h : ObjectMeta.decodeFrom id bytes = .ok (info, rest)) :
    ∃ (raw : RawEntry) (key : String), bytes = raw.bytes ++ rest ∧ raw.key.read = some key ∧
      info = raw.under key := by
  obtain ⟨totalLen, b1, rfl, h1⟩ := bind_word_eq_ok h
  obtain ⟨generation, b2, rfl, h2⟩ := bind_word_eq_ok h1
  obtain ⟨noRanges, b3, rfl, h3⟩ := bind_word_eq_ok h2
  obtain ⟨stale, b4, rfl, h4⟩ := bind_word_eq_ok h3
  obtain ⟨created, b5, rfl, h5⟩ := bind_word_eq_ok h4
  obtain ⟨lastSeen, b6, rfl, h6⟩ := bind_word_eq_ok h5
  obtain ⟨key, b7, rfl, h7⟩ := bind_text_eq_ok h6
  cases hkey : key.read with
  | none =>
      rw [hkey] at h7
      cases h7
  | some name =>
      rw [hkey] at h7
      obtain ⟨etag, b8, rfl, h8⟩ := bind_text_eq_ok h7
      obtain ⟨lastModified, b9, rfl, h9⟩ := bind_text_eq_ok h8
      obtain ⟨contentType, b10, rfl, h10⟩ := bind_text_eq_ok h9
      cases h10
      refine ⟨⟨totalLen, generation, noRanges, stale, created, lastSeen, key, etag, lastModified,
        contentType⟩, name, ?_, hkey, rfl⟩
      simp only [RawEntry.bytes, List.append_assoc]

/-- The decoder takes the raw entries whose key is a text, and no other bytes, for entries. -/
theorem decodeFrom_eq_ok_iff {info : ObjectMeta} :
    ObjectMeta.decodeFrom id bytes = .ok (info, rest) ↔
      ∃ (raw : RawEntry) (key : String), bytes = raw.bytes ++ rest ∧
        raw.key.read = some key ∧ info = raw.under key := by
  refine ⟨exists_raw_of_decodeFrom, ?_⟩
  rintro ⟨raw, key, rfl, hkey, rfl⟩
  exact (RawEntry.reads id raw hkey).whole rest

/-- An entry whose key is absent, or is not UTF-8, is refused. -/
theorem RawEntry.decodeFrom_missing_key (id : ObjectId) {raw : RawEntry}
    (hkey : raw.key.read = none) (rest : List UInt8) :
    ObjectMeta.decodeFrom id (raw.bytes ++ rest) = .error (.corrupt (hex id) "missing key") := by
  simp only [RawEntry.bytes, List.append_assoc]
  refine (Decoder.bind_of_ok _ (((field_word raw.totalLen).truncated id _).whole _)).trans <|
    (Decoder.bind_of_ok _ (((field_word raw.generation).truncated id _).whole _)).trans <|
    (Decoder.bind_of_ok _ (((field_word raw.noRanges).truncated id _).whole _)).trans <|
    (Decoder.bind_of_ok _ (((field_word raw.stale).truncated id _).whole _)).trans <|
    (Decoder.bind_of_ok _ (((field_word raw.created).truncated id _).whole _)).trans <|
    (Decoder.bind_of_ok _ (((field_word raw.lastSeen).truncated id _).whole _)).trans <|
    (Decoder.bind_of_ok _ (((field_text raw.key).truncated id _).whole _)).trans ?_
  rw [hkey]
  rfl

theorem failsIn_decodeFrom (id : ObjectId) : (ObjectMeta.decodeFrom id).FailsIn (Blames id) := by
  refine (failsIn_truncated id _ _).bind fun totalLen =>
    (failsIn_truncated id _ _).bind fun generation =>
    (failsIn_truncated id _ _).bind fun noRanges =>
    (failsIn_truncated id _ _).bind fun stale =>
    (failsIn_truncated id _ _).bind fun created =>
    (failsIn_truncated id _ _).bind fun lastSeen =>
    (failsIn_truncated id _ _).bind fun key => ?_
  cases key with
  | none => exact .throw ⟨_, rfl⟩
  | some key =>
      exact (failsIn_truncated id _ _).bind fun etag =>
        (failsIn_truncated id _ _).bind fun lastModified =>
        (failsIn_truncated id _ _).bind fun contentType => .pure _

/-! ## What is stored and what is returned -/

/-- Any byte but zero sets a flag. -/
def oneFlag (b : UInt8) : UInt8 := if b = 0 then 0 else 1

/-- The bytes of an entry with one where a flag is not zero. -/
def oneFlags (bytes : List UInt8) : List UInt8 := (bytes.modify 12 oneFlag).modify 13 oneFlag

namespace RawEntry

/-- The texts an entry may do without are UTF-8 if they are stored. -/
structure OptionalsUtf8 (raw : RawEntry) : Prop where
  etag : raw.etag.Utf8
  lastModified : raw.lastModified.Utf8
  contentType : raw.contentType.Utf8

/-- What is stored is returned as present, and nothing else. -/
structure PresentIn (raw : RawEntry) (info : ObjectMeta) : Prop where
  key : raw.key.isSome
  etag : raw.etag.isSome = info.etag.isSome
  lastModified : raw.lastModified.isSome = info.lastModified.isSome
  contentType : raw.contentType.isSome = info.contentType.isSome

end RawEntry

namespace RawText

variable {text : RawText}

theorem utf8_iff : text.Utf8 ↔ text.isSome = text.read.isSome := by
  cases text with
  | none => exact iff_of_true nofun rfl
  | some field =>
      constructor
      · intro h
        exact (h field rfl).symm
      · rintro h _ ⟨⟩
        exact h.symm

/-- A text that is UTF-8 is stored as it would be written. -/
theorem Utf8.putStr_read (h : text.Utf8) : putStr text.read = text.bytes := by
  cases text with
  | none => rfl
  | some field =>
      obtain ⟨v, hv⟩ := Option.isSome_iff_exists.mp (h field rfl)
      have hread : RawText.read (some field) = some v := hv
      rw [hread, putStr, Option.map_some, utf8Bytes_of_fromUtf8 hv]
      rfl

/-- A text that is not is longer than what would be written for it: the empty text is UTF-8. -/
theorem length_putStr_read_lt (h : ¬text.Utf8) :
    (putStr text.read).length < text.bytes.length := by
  cases text with
  | none => exact absurd nofun h
  | some field =>
      have hnone : fromUtf8 field.1 = none := by
        by_contra hsome
        refine h ?_
        rintro _ ⟨⟩
        exact Option.isSome_iff_ne_none.mpr hsome
      have hne : field.1 ≠ [] := by
        intro hnil
        rw [hnil] at hnone
        cases (fromUtf8_utf8Bytes "").symm.trans hnone
      have hread : RawText.read (some field) = none := hnone
      rw [hread]
      simp [putStr, RawText.bytes, sized, List.length_pos_iff.mpr hne]

theorem length_putStr_read_le (text : RawText) :
    (putStr text.read).length ≤ text.bytes.length := by
  by_cases h : text.Utf8
  · exact le_of_eq (congrArg List.length h.putStr_read)
  · exact le_of_lt (length_putStr_read_lt h)

end RawText

namespace RawEntry

variable {raw : RawEntry} {key : String}

theorem modify_append_cons (front tail : List UInt8) (b : UInt8) (f : UInt8 → UInt8) :
    (front ++ b :: tail).modify front.length f = front ++ f b :: tail := by
  rw [List.modify_eq_take_drop, List.take_left, List.drop_left]
  rfl

theorem oneFlags_append {front : List UInt8} (h : front.length = 12) (a b : UInt8)
    (tail : List UInt8) :
    oneFlags (front ++ a :: b :: tail) = front ++ oneFlag a :: oneFlag b :: tail := by
  have hnext : (front ++ [oneFlag a]).length = 13 := by simp [h]
  rw [oneFlags, ← h, modify_append_cons, List.append_cons front, ← hnext, modify_append_cons,
    List.append_assoc]
  rfl

theorem oneFlag_ofNat (flag : Fin (256 ^ 1)) :
    oneFlag (UInt8.ofNat flag) = UInt8.ofNat (decide (flag.val ≠ 0)).toNat := by
  by_cases h : flag.val = 0
  · simp [oneFlag, h]
  · have hne : UInt8.ofNat flag ≠ 0 := by
      intro heq
      have hval := congrArg UInt8.toNat heq
      rw [UInt8.toNat_ofNat', Nat.mod_eq_of_lt (lt_of_lt_of_eq flag.isLt (by norm_num))] at hval
      exact h hval
    rw [oneFlag, if_neg hne, decide_eq_true h]
    rfl

theorem length_oneFlags (bytes : List UInt8) : (oneFlags bytes).length = bytes.length := by
  rw [oneFlags, List.length_modify, List.length_modify]

/-- An entry whose texts are UTF-8 is stored as it would be written, but for its flags. -/
theorem oneFlags_bytes (hkey : raw.key.read = some key) (h : raw.OptionalsUtf8) :
    oneFlags raw.bytes = (raw.under key).encode := by
  have hname : raw.key.bytes = putStr (some key) := by
    have hutf8 : raw.key.Utf8 := by
      intro field hfield
      rw [hfield] at hkey
      exact Option.isSome_iff_exists.mpr ⟨key, hkey⟩
    rw [← hutf8.putStr_read, hkey]
  have hfront : (leBytes 8 raw.totalLen ++ leBytes 4 raw.generation).length = 12 := by
    rw [List.length_append, length_leBytes, length_leBytes]
  have hflags := oneFlags_append hfront (UInt8.ofNat raw.noRanges) (UInt8.ofNat raw.stale)
    (leBytes 8 raw.created ++ (leBytes 8 raw.lastSeen ++ (raw.key.bytes ++ (raw.etag.bytes ++
      (raw.lastModified.bytes ++ raw.contentType.bytes)))))
  rw [List.append_assoc, oneFlag_ofNat, oneFlag_ofNat, List.append_assoc] at hflags
  refine hflags.trans ?_
  rw [hname, ← h.etag.putStr_read, ← h.lastModified.putStr_read, ← h.contentType.putStr_read]
  rfl

/-- An entry with a text that is not is longer than what would be written. -/
theorem length_encode_lt (hkey : raw.key.read = some key) (h : ¬raw.OptionalsUtf8) :
    (raw.under key).encode.length < raw.bytes.length := by
  have hname : (putStr (some key)).length ≤ raw.key.bytes.length :=
    hkey ▸ raw.key.length_putStr_read_le
  have hetag := raw.etag.length_putStr_read_le
  have hmodified := raw.lastModified.length_putStr_read_le
  have htype := raw.contentType.length_putStr_read_le
  have hsome : ¬raw.etag.Utf8 ∨ ¬raw.lastModified.Utf8 ∨ ¬raw.contentType.Utf8 := by
    by_contra hall
    push Not at hall
    exact h ⟨hall.1, hall.2.1, hall.2.2⟩
  simp only [ObjectMeta.encode, RawEntry.bytes, under, List.length_append, length_leBytes]
  rcases hsome with hbad | hbad | hbad
  all_goals
    have hlt := RawText.length_putStr_read_lt hbad
    omega

theorem oneFlags_bytes_iff (hkey : raw.key.read = some key) :
    oneFlags raw.bytes = (raw.under key).encode ↔ raw.OptionalsUtf8 := by
  refine ⟨fun heq => ?_, oneFlags_bytes hkey⟩
  by_contra hnot
  have hlt := length_encode_lt hkey hnot
  rw [← heq, length_oneFlags] at hlt
  exact lt_irrefl _ hlt

theorem presentIn_iff (hkey : raw.key.read = some key) :
    raw.PresentIn (raw.under key) ↔ raw.OptionalsUtf8 := by
  constructor
  · intro h
    exact ⟨RawText.utf8_iff.mpr h.etag, RawText.utf8_iff.mpr h.lastModified,
      RawText.utf8_iff.mpr h.contentType⟩
  · intro h
    refine ⟨?_, RawText.utf8_iff.mp h.etag, RawText.utf8_iff.mp h.lastModified,
      RawText.utf8_iff.mp h.contentType⟩
    cases hstored : raw.key with
    | none =>
        rw [hstored] at hkey
        cases hkey
    | some field => rfl

end RawEntry

/-- **Corruption of an index entry is reported, except in a text the entry may do without.**
Whatever the bytes: what is returned was stored in front of the rest, up to the flags, and no
field that is present comes back absent, exactly if the validators and the content type that
are stored are UTF-8; a torn entry, and one whose key is absent or not UTF-8, is refused; and
every refusal names the entry. -/
theorem index_corruption_reported (id : ObjectId) (bytes : List UInt8) :
    (∀ info rest, ObjectMeta.decodeFrom id bytes = .ok (info, rest) →
      ∃ raw : RawEntry, bytes = raw.bytes ++ rest ∧
        (oneFlags raw.bytes = info.encode ↔ raw.OptionalsUtf8) ∧
        (raw.PresentIn info ↔ raw.OptionalsUtf8) ∧
        ∀ part, part <+: raw.bytes → part ≠ raw.bytes →
          ∃ reason, ObjectMeta.decode part id = .error (.corrupt (hex id) reason)) ∧
    (∀ (raw : RawEntry) rest, bytes = raw.bytes ++ rest → raw.key.read = none →
      ObjectMeta.decode bytes id = .error (.corrupt (hex id) "missing key")) ∧
    ∀ e, ObjectMeta.decode bytes id = .error e → ∃ reason, e = .corrupt (hex id) reason := by
  refine ⟨?returned, ?missing, ?refused⟩
  case returned =>
    intro info rest h
    obtain ⟨raw, key, hbytes, hkey, rfl⟩ := decodeFrom_eq_ok_iff.mp h
    refine ⟨raw, hbytes, raw.oneFlags_bytes_iff hkey, raw.presentIn_iff hkey, ?_⟩
    intro part hpart hne
    obtain ⟨e, ⟨field, rfl⟩, hfail⟩ := (raw.reads id hkey).torn part hpart hne
    refine ⟨"truncated " ++ field, ?_⟩
    rw [ObjectMeta.decode, hfail]
    rfl
  case missing =>
    rintro raw rest rfl hkey
    rw [ObjectMeta.decode, raw.decodeFrom_missing_key id hkey rest]
    rfl
  case refused =>
    intro e h
    cases hfrom : ObjectMeta.decodeFrom id bytes with
    | error e' =>
        rw [ObjectMeta.decode, hfrom] at h
        cases h
        exact failsIn_decodeFrom id bytes e hfrom
    | ok p =>
        rw [ObjectMeta.decode, hfrom] at h
        cases h

namespace Scenario

/-- An entry with an entity tag of one byte that is no text. -/
def strayTag : RawEntry where
  totalLen := ⟨10, by decide⟩
  generation := ⟨0, by decide⟩
  noRanges := ⟨0, by decide⟩
  stale := ⟨0, by decide⟩
  created := ⟨5, by decide⟩
  lastSeen := ⟨6, by decide⟩
  key := some ⟨[107], by decide⟩
  etag := some ⟨[255], by decide⟩
  lastModified := none
  contentType := none

/-- The entity tag that is stored is returned as absent. -/
theorem index_corruption_reported_stray_tag :
    strayTag.etag = some ⟨[255], by decide⟩ ∧
      ∃ info, ObjectMeta.decode strayTag.bytes ⟨List.replicate 16 7, rfl⟩ = .ok info ∧
        info.etag = none ∧ oneFlags strayTag.bytes ≠ info.encode := by
  have hstray : fromUtf8 [255] = none := by decide +kernel
  have hkey : strayTag.key.read = some "k" := by decide +kernel
  have hnot : ¬strayTag.OptionalsUtf8 := by
    intro h
    have htag : (fromUtf8 [255]).isSome := h.etag _ rfl
    rw [hstray] at htag
    cases htag
  refine ⟨rfl, strayTag.under "k", ?_, hstray, fun heq =>
    hnot ((strayTag.oneFlags_bytes_iff hkey).mp heq)⟩
  have hwhole := (strayTag.reads ⟨List.replicate 16 7, rfl⟩ hkey).whole []
  rw [List.append_nil] at hwhole
  rw [ObjectMeta.decode, hwhole]
  rfl

end Scenario

end Cachic
