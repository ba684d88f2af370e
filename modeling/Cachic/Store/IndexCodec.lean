import Cachic.Lib.Codec
import Cachic.Store.Index

/-!
# The bytes of an index entry

An entry is two blocks of words and flags followed by four texts.  The decoder reads through
a cursor that returns nothing when it runs out, and says of which field that was.

`index_codec_round_trip` says that an entry is read back, and that a truncated one is reported.
-/

namespace Cachic

open ByteCodec

inductive IndexError
  | corrupt (id reason : String)
  deriving DecidableEq, Repr

/-- An object id in lower case hexadecimal. -/
def hex (id : ObjectId) : String :=
  String.ofList (id.bytes.flatMap fun b =>
    [Nat.digitChar (b.toNat / 16), Nat.digitChar (b.toNat % 16)])

/-- The length is cut to 32 bits. -/
def putStr (value : Option String) : List UInt8 := sized (value.map utf8Bytes)

/-! ## The cursor

Its state is what it has not read. -/

namespace Cursor

def u8 : Decoder Unit ℕ := readLE () 1

def u32 : Decoder Unit ℕ := readLE () 4

def u64 : Decoder Unit ℕ := readLE () 8

/-- A text that is stored as absent, or is not UTF-8, is `none`. -/
def string : Decoder Unit (Option String) := readSized () fun bytes => return fromUtf8 bytes

end Cursor

namespace ObjectMeta

def encode (info : ObjectMeta) : List UInt8 :=
  leBytes 8 info.totalLen ++ (leBytes 4 info.generation ++ (leBytes 1 info.noRanges.toNat ++
    (leBytes 1 info.stale.toNat ++ (leBytes 8 info.created ++ (leBytes 8 info.lastSeen ++
      (putStr (some info.key) ++ (putStr info.etag ++ (putStr info.lastModified ++
        putStr info.contentType))))))))

/-- A cursor that ran out in a field. -/
def truncated {α : Type} (id : ObjectId) (field : String) (read : Decoder Unit α) :
    Decoder IndexError α :=
  read.mapError fun _ => .corrupt (hex id) ("truncated " ++ field)

def decodeFrom (id : ObjectId) : Decoder IndexError ObjectMeta := do
  let totalLen ← truncated id "total_len" Cursor.u64
  let generation ← truncated id "generation" Cursor.u32
  let noRanges ← truncated id "no_ranges" Cursor.u8
  let stale ← truncated id "stale" Cursor.u8
  let created ← truncated id "created" Cursor.u64
  let lastSeen ← truncated id "last_seen" Cursor.u64
  match ← truncated id "key" Cursor.string with
  | none => throw (.corrupt (hex id) "missing key")
  | some key =>
      let etag ← truncated id "etag" Cursor.string
      let lastModified ← truncated id "last_modified" Cursor.string
      let contentType ← truncated id "content_type" Cursor.string
      return { key, totalLen, generation, etag, lastModified, contentType,
               noRanges := noRanges ≠ 0, created, lastSeen, stale := stale ≠ 0 }

/-- Bytes after the entry are not looked at. -/
def decode (bytes : List UInt8) (id : ObjectId) : Except IndexError ObjectMeta :=
  Prod.fst <$> decodeFrom id bytes

/-- The fields are words of their types, and no text is as long as an absent one. -/
structure Fits (info : ObjectMeta) : Prop where
  totalLen : info.totalLen < 2 ^ 64
  generation : info.generation < 2 ^ 32
  created : info.created < 2 ^ 64
  lastSeen : info.lastSeen < 2 ^ 64
  key : info.key.utf8ByteSize < u32Max
  etag : ∀ v, info.etag = some v → v.utf8ByteSize < u32Max
  lastModified : ∀ v, info.lastModified = some v → v.utf8ByteSize < u32Max
  contentType : ∀ v, info.contentType = some v → v.utf8ByteSize < u32Max

end ObjectMeta

/-! ## Entries as they lie in the table -/

/-- A text as it is stored: absent, or bytes that may or may not be UTF-8. -/
abbrev RawText := Option {field : List UInt8 // field.length < u32Max}

namespace RawText

def bytes (text : RawText) : List UInt8 := sized (text.map Subtype.val)

/-- What the cursor makes of it. -/
def read (text : RawText) : Option String := text.bind fun field => fromUtf8 field.1

/-- The bytes are those of a text. -/
def Utf8 (text : RawText) : Prop := ∀ field, text = some field → (fromUtf8 field.1).isSome

end RawText

/-- An entry whose texts have not been read yet.  A flag may be any byte. -/
structure RawEntry where
  totalLen : Fin (256 ^ 8)
  generation : Fin (256 ^ 4)
  noRanges : Fin (256 ^ 1)
  stale : Fin (256 ^ 1)
  created : Fin (256 ^ 8)
  lastSeen : Fin (256 ^ 8)
  key : RawText
  etag : RawText
  lastModified : RawText
  contentType : RawText

namespace RawEntry

def bytes (raw : RawEntry) : List UInt8 :=
  leBytes 8 raw.totalLen ++ (leBytes 4 raw.generation ++ (leBytes 1 raw.noRanges ++
    (leBytes 1 raw.stale ++ (leBytes 8 raw.created ++ (leBytes 8 raw.lastSeen ++
      (raw.key.bytes ++ (raw.etag.bytes ++ (raw.lastModified.bytes ++
        raw.contentType.bytes))))))))

/-- The entry under the key that was read. -/
def under (raw : RawEntry) (key : String) : ObjectMeta where
  key := key
  totalLen := raw.totalLen
  generation := raw.generation
  etag := raw.etag.read
  lastModified := raw.lastModified.read
  contentType := raw.contentType.read
  noRanges := raw.noRanges.val ≠ 0
  created := raw.created
  lastSeen := raw.lastSeen
  stale := raw.stale.val ≠ 0

end RawEntry

/-! ## What is written is read back -/

/-- A truncated entry is reported as such. -/
def Truncated (id : ObjectId) (e : IndexError) : Prop :=
  ∃ field, e = .corrupt (hex id) ("truncated " ++ field)

section Fields

variable {α : Type} {read : Decoder Unit α} {bytes : List UInt8} {a : α}

/-- A field of an entry, read back by the cursor. -/
abbrev Field (read : Decoder Unit α) (bytes : List UInt8) (a : α) : Prop :=
  Reads (fun _ => True) read bytes a

theorem Field.truncated (h : Field read bytes a) (id : ObjectId) (field : String) :
    Reads (Truncated id) (ObjectMeta.truncated id field read) bytes a :=
  h.mapError fun _ _ => ⟨field, rfl⟩

theorem field_word {w : ℕ} (n : Fin (256 ^ w)) : Field (readLE () w) (leBytes w n) n :=
  .readLE trivial n.isLt

theorem field_text (text : RawText) : Field Cursor.string text.bytes text.read := by
  cases text with
  | none => exact .sized trivial nofun (fun _ => rfl) nofun
  | some field =>
      refine .sized trivial ?_ nofun ?_
      · rintro _ ⟨⟩
        exact field.2
      · rintro _ ⟨⟩
        exact .pure (fromUtf8 field.1)

end Fields

/-- An entry whose key is a text is read, and a torn one is reported. -/
theorem RawEntry.reads (id : ObjectId) (raw : RawEntry) {key : String}
    (hkey : raw.key.read = some key) :
    Reads (Truncated id) (ObjectMeta.decodeFrom id) raw.bytes (raw.under key) := by
  refine ((field_word raw.totalLen).truncated id _).bind
    (((field_word raw.generation).truncated id _).bind
    (((field_word raw.noRanges).truncated id _).bind
    (((field_word raw.stale).truncated id _).bind
    (((field_word raw.created).truncated id _).bind
    (((field_word raw.lastSeen).truncated id _).bind
    (((field_text raw.key).truncated id _).bind ?_))))))
  rw [hkey]
  exact ((field_text raw.etag).truncated id _).bind
    (((field_text raw.lastModified).truncated id _).bind
    (((field_text raw.contentType).truncated id _).last (.pure (raw.under key))))

/-- How a text that fits is stored. -/
theorem RawText.exists_of_fits {s : Option String}
    (h : ∀ v, s = some v → v.utf8ByteSize < u32Max) :
    ∃ text : RawText, text.bytes = putStr s ∧ text.read = s := by
  cases s with
  | none => exact ⟨none, rfl, rfl⟩
  | some v => exact ⟨some ⟨utf8Bytes v, h v rfl⟩, rfl, fromUtf8_utf8Bytes v⟩

theorem decide_toNat_ne_zero (b : Bool) : decide (b.toNat ≠ 0) = b := by
  cases b <;> rfl

theorem ObjectMeta.reads (id : ObjectId) {info : ObjectMeta} (h : info.Fits) :
    Reads (Truncated id) (decodeFrom id) info.encode info := by
  have hfits : ∀ v, some info.key = some v → v.utf8ByteSize < u32Max := by
    intro v hv
    cases hv
    exact h.key
  have hflag : ∀ b : Bool, b.toNat < 256 ^ 1 := fun b => lt_of_le_of_lt b.toNat_le (by norm_num)
  obtain ⟨key, bkey, hkey⟩ := RawText.exists_of_fits hfits
  obtain ⟨etag, betag, hetag⟩ := RawText.exists_of_fits h.etag
  obtain ⟨modified, bmodified, hmodified⟩ := RawText.exists_of_fits h.lastModified
  obtain ⟨type, btype, htype⟩ := RawText.exists_of_fits h.contentType
  have hreads := RawEntry.reads id
    { totalLen := ⟨info.totalLen, lt_of_lt_of_eq h.totalLen (by norm_num)⟩
      generation := ⟨info.generation, lt_of_lt_of_eq h.generation (by norm_num)⟩
      noRanges := ⟨info.noRanges.toNat, hflag info.noRanges⟩
      stale := ⟨info.stale.toNat, hflag info.stale⟩
      created := ⟨info.created, lt_of_lt_of_eq h.created (by norm_num)⟩
      lastSeen := ⟨info.lastSeen, lt_of_lt_of_eq h.lastSeen (by norm_num)⟩
      key := key, etag := etag, lastModified := modified, contentType := type } hkey
  simp only [RawEntry.bytes, RawEntry.under, bkey, betag, bmodified, btype, hetag, hmodified,
    htype, decide_toNat_ne_zero] at hreads
  exact hreads

/-- **The index codec reads back an entry**, whatever follows it, and reports one that is
truncated, of any object. -/
theorem index_codec_round_trip (id : ObjectId) (info : ObjectMeta) (h : info.Fits) :
    (∀ rest, ObjectMeta.decode (info.encode ++ rest) id = .ok info) ∧
      ∀ part, part <+: info.encode → part ≠ info.encode →
        ∃ field, ObjectMeta.decode part id =
          .error (.corrupt (hex id) ("truncated " ++ field)) := by
  have hreads := ObjectMeta.reads id h
  refine ⟨fun rest => ?_, fun part hpart hne => ?_⟩
  · rw [ObjectMeta.decode, hreads.whole rest]
    rfl
  · obtain ⟨e, ⟨field, rfl⟩, hfail⟩ := hreads.torn part hpart hne
    refine ⟨field, ?_⟩
    rw [ObjectMeta.decode, hfail]
    rfl

namespace Scenario

/-- An entry with a text of each kind. -/
def shortEntry : ObjectMeta where
  key := "k"
  totalLen := 10
  generation := 2
  etag := some ""
  lastModified := none
  contentType := some "text/plain"
  noRanges := true
  created := 5
  lastSeen := 6
  stale := false

theorem shortEntry_fits : shortEntry.Fits where
  totalLen := by decide
  generation := by decide
  created := by decide
  lastSeen := by decide
  key := by decide
  etag := by
    intro v h
    cases h
    decide
  lastModified := by
    intro v h
    cases h
  contentType := by
    intro v h
    cases h
    decide

/-- The entry with two bytes behind it, and the entry torn in its `ETag`. -/
theorem index_codec_round_trip_short :
    ObjectMeta.decode (shortEntry.encode ++ [0, 0]) ⟨List.replicate 16 7, rfl⟩ = .ok shortEntry ∧
      ∃ field, ObjectMeta.decode (shortEntry.encode.take 37) ⟨List.replicate 16 7, rfl⟩ =
        .error (.corrupt (hex ⟨List.replicate 16 7, rfl⟩) ("truncated " ++ field)) :=
  ⟨(index_codec_round_trip _ shortEntry shortEntry_fits).1 [0, 0],
    (index_codec_round_trip _ shortEntry shortEntry_fits).2 _ (List.take_prefix _ _)
      (by decide +kernel)⟩

end Scenario

end Cachic
