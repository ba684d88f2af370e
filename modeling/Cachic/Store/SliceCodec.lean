import Cachic.Lib.Codec
import Cachic.Store.Slice

/-!
# The bytes of a stored slice

Keys and values are written to the device and read back through a codec.  A header text is
written behind its length, and the largest length stands for a text that is absent.  The
payload's checksum is written before it and compared when it is read.

`slice_codec_round_trip` says that what was written is read back, whatever follows it on the
device, and that no torn write is.
-/

namespace Cachic

open ByteCodec

/-- The kinds of error the codec makes itself. -/
inductive ErrorKind
  | parse
  | outOfRange
  | magicMismatch
  | checksumMismatch
  deriving DecidableEq, Repr

inductive CodeError
  /-- the reader ran out of bytes -/
  | io
  | new (kind : ErrorKind) (message : String)
  deriving DecidableEq, Repr

/-- What the codec takes from elsewhere: the checksum, and what is said of bytes that are not
UTF-8. -/
structure CodeLibs where
  xxh3_64 : List UInt8 → UInt64
  utf8Error : List UInt8 → String

/-- A number as `{:#x}` prints it. -/
def lowerHex (n : ℕ) : String := "0x" ++ String.ofList (Nat.toDigits 16 n)

/-- Marks a well-formed slice payload. -/
def sliceMagic : ℕ := 0x43414331

/-! ## Keys -/

namespace SliceKey

def encodedLen : ℕ := 16 + 4 + 4

def encode (key : SliceKey) : Except CodeError (List UInt8) :=
  .ok (key.object.bytes ++ (leBytes 4 key.generation ++ leBytes 4 key.index))

def decode : Decoder CodeError SliceKey := do
  let object ← readArray .io 16
  let generation ← readLE .io 4
  let index ← readLE .io 4
  return { object := ⟨object.1, object.2⟩, generation, index }

def estimatedSize (_ : SliceKey) : ℕ := encodedLen

/-- The fields are words of their types. -/
structure Fits (key : SliceKey) : Prop where
  generation : key.generation < 2 ^ 32
  index : key.index < 2 ^ 32

end SliceKey

/-! ## Header texts -/

def optStrLen (s : Option String) : ℕ := 4 + (s.map String.utf8ByteSize).getD 0

def writeOptStr : Option String → Except CodeError (List UInt8)
  | none => .ok (sized none)
  | some v =>
      if v.utf8ByteSize < 2 ^ 32 then .ok (sized (some (utf8Bytes v)))
      else .error (.new .outOfRange
        ("header string too long: " ++ toString v.utf8ByteSize ++ " bytes"))

def readOptStr (libs : CodeLibs) : Decoder CodeError (Option String) :=
  readSized .io fun buf =>
    match fromUtf8 buf with
    | some v => return some v
    | none => throw (.new .parse ("header string is not utf-8: " ++ libs.utf8Error buf))

/-! ## Headers -/

namespace SliceHeader

def encode (header : SliceHeader) : Except CodeError (List UInt8) := do
  let etag ← writeOptStr header.etag
  let lastModified ← writeOptStr header.lastModified
  let contentType ← writeOptStr header.contentType
  return leBytes 4 header.sliceSize ++ (leBytes 8 header.totalLen ++
    (leBytes 4 header.generation ++ (etag ++ (lastModified ++ contentType))))

def decode (libs : CodeLibs) : Decoder CodeError SliceHeader := do
  let sliceSize ← readLE .io 4
  let totalLen ← readLE .io 8
  let generation ← readLE .io 4
  let etag ← readOptStr libs
  let lastModified ← readOptStr libs
  let contentType ← readOptStr libs
  return { sliceSize, totalLen, generation, etag, lastModified, contentType }

def encodedLen (header : SliceHeader) : ℕ :=
  4 + 8 + 4 + optStrLen header.etag + optStrLen header.lastModified +
    optStrLen header.contentType

/-- The fields are words of their types, and no text is as long as an absent one. -/
structure Fits (header : SliceHeader) : Prop where
  sliceSize : header.sliceSize < 2 ^ 32
  totalLen : header.totalLen < 2 ^ 64
  generation : header.generation < 2 ^ 32
  etag : ∀ v, header.etag = some v → v.utf8ByteSize < u32Max
  lastModified : ∀ v, header.lastModified = some v → v.utf8ByteSize < u32Max
  contentType : ∀ v, header.contentType = some v → v.utf8ByteSize < u32Max

end SliceHeader

/-! ## Values -/

namespace SliceValue

def encode (libs : CodeLibs) (value : SliceValue) : Except CodeError (List UInt8) := do
  let header ← value.header.encode
  if value.payload.length < 2 ^ 32 then
    return leBytes 4 sliceMagic ++ (header ++ (leBytes 8 (libs.xxh3_64 value.payload).toNat ++
      (leBytes 4 value.payload.length ++ value.payload)))
  else throw (.new .outOfRange ("slice payload too large: " ++ toString value.payload.length))

def decode (libs : CodeLibs) : Decoder CodeError SliceValue := do
  let magic ← readLE .io 4
  if magic ≠ sliceMagic then
    throw (.new .magicMismatch ("slice magic mismatch: expected " ++ lowerHex sliceMagic ++
      ", found " ++ lowerHex magic))
  else
    let header ← SliceHeader.decode libs
    let expected ← readLE .io 8
    let len ← readLE .io 4
    let payload ← readExact .io len
    let actual := (libs.xxh3_64 payload).toNat
    if actual ≠ expected then
      throw (.new .checksumMismatch ("slice checksum mismatch: expected " ++ lowerHex expected ++
        ", computed " ++ lowerHex actual))
    else return { header, payload }

def estimatedSize (value : SliceValue) : ℕ :=
  4 + value.header.encodedLen + 8 + 4 + value.payload.length

structure Fits (value : SliceValue) : Prop where
  header : value.header.Fits
  payload : value.payload.length < 2 ^ 32

end SliceValue

/-! ## What is written is read back -/

/-- A torn write is found out by the reader running out. -/
def RanOut (e : CodeError) : Prop := e = .io

theorem ranOut_io : RanOut .io := rfl

theorem reads_u32 {n : ℕ} (h : n < 2 ^ 32) : Reads RanOut (readLE .io 4) (leBytes 4 n) n :=
  .readLE ranOut_io (lt_of_lt_of_eq h (by norm_num))

theorem reads_u64 {n : ℕ} (h : n < 2 ^ 64) : Reads RanOut (readLE .io 8) (leBytes 8 n) n :=
  .readLE ranOut_io (lt_of_lt_of_eq h (by norm_num))

/-- What `encode` writes has the length foresaid, and `decode` reads it back. -/
def Stored {α : Type} (encoded : Except CodeError (List UInt8)) (decode : Decoder CodeError α)
    (size : ℕ) (a : α) : Prop :=
  ∃ bytes, encoded = .ok bytes ∧ bytes.length = size ∧ Reads RanOut decode bytes a

theorem SliceKey.stored {key : SliceKey} (h : key.Fits) :
    Stored key.encode SliceKey.decode key.estimatedSize key := by
  refine ⟨_, rfl, ?_, ?_⟩
  · simp [key.object.length_eq, SliceKey.estimatedSize, SliceKey.encodedLen]
  · refine (Reads.readArray ranOut_io ⟨key.object.bytes, key.object.length_eq⟩).bind
      ((reads_u32 h.generation).bind ?_)
    exact (reads_u32 h.index).map fun index => { key with index := index }

theorem stored_optStr (libs : CodeLibs) {s : Option String}
    (h : ∀ v, s = some v → v.utf8ByteSize < u32Max) :
    Stored (writeOptStr s) (readOptStr libs) (optStrLen s) s := by
  cases s with
  | none =>
      exact ⟨sized none, rfl, length_leBytes 4 u32Max, .sized ranOut_io nofun (fun _ => rfl) nofun⟩
  | some v =>
      have hlt : v.utf8ByteSize < u32Max := h v rfl
      refine ⟨sized (some (utf8Bytes v)), if_pos (lt_trans hlt (by decide)), ?_,
        .sized ranOut_io ?_ nofun ?_⟩
      · simp [sized, optStrLen]
      · rintro _ ⟨⟩
        exact hlt
      · rintro _ ⟨⟩
        rw [fromUtf8_utf8Bytes]
        exact .pure (some v)

theorem SliceHeader.stored (libs : CodeLibs) {header : SliceHeader} (h : header.Fits) :
    Stored header.encode (SliceHeader.decode libs) header.encodedLen header := by
  obtain ⟨etag, hetag, letag, retag⟩ := stored_optStr libs h.etag
  obtain ⟨modified, hmodified, lmodified, rmodified⟩ := stored_optStr libs h.lastModified
  obtain ⟨type, htype, ltype, rtype⟩ := stored_optStr libs h.contentType
  have hencode : header.encode = .ok (leBytes 4 header.sliceSize ++ (leBytes 8 header.totalLen ++
      (leBytes 4 header.generation ++ (etag ++ (modified ++ type))))) := by
    rw [SliceHeader.encode, hetag, hmodified, htype]
    rfl
  refine ⟨_, hencode, ?_, ?_⟩
  · simp only [List.length_append, length_leBytes, letag, lmodified, ltype,
      SliceHeader.encodedLen]
    omega
  · refine (reads_u32 h.sliceSize).bind ((reads_u64 h.totalLen).bind
      ((reads_u32 h.generation).bind (retag.bind (rmodified.bind ?_))))
    exact rtype.last (.pure header)

theorem SliceValue.stored (libs : CodeLibs) {value : SliceValue} (h : value.Fits) :
    Stored (value.encode libs) (SliceValue.decode libs) value.estimatedSize value := by
  obtain ⟨header, hheader, lheader, rheader⟩ := SliceHeader.stored libs h.header
  have hencode : value.encode libs = .ok (leBytes 4 sliceMagic ++ (header ++
      (leBytes 8 (libs.xxh3_64 value.payload).toNat ++
        (leBytes 4 value.payload.length ++ value.payload)))) := by
    rw [SliceValue.encode, hheader]
    exact if_pos h.payload
  refine ⟨_, hencode, ?_, ?_⟩
  · simp only [List.length_append, length_leBytes, lheader, SliceValue.estimatedSize]
    omega
  · refine (reads_u32 (by decide)).bind ?_
    rw [if_neg (not_not.mpr rfl)]
    refine rheader.bind ((reads_u64 (libs.xxh3_64 value.payload).toNat_lt).bind
      ((reads_u32 h.payload).bind ((Reads.readExact ranOut_io value.payload).last ?_)))
    rw [if_neg (not_not.mpr rfl)]
    exact .pure value

/-- **The slice codec reads back what it wrote**, whatever follows it, having consumed just
that; it wrote as much as was foresaid; and of a proper part of it nothing is read. -/
theorem slice_codec_round_trip (libs : CodeLibs) (key : SliceKey) (hkey : key.Fits)
    (value : SliceValue) (hvalue : value.Fits) :
    (∃ bytes, key.encode = .ok bytes ∧
      (∀ rest, SliceKey.decode (bytes ++ rest) = .ok (key, rest)) ∧
      bytes.length = key.estimatedSize ∧
      ∀ part, part <+: bytes → part ≠ bytes → SliceKey.decode part = .error .io) ∧
    ∃ bytes, value.encode libs = .ok bytes ∧
      (∀ rest, SliceValue.decode libs (bytes ++ rest) = .ok (value, rest)) ∧
      bytes.length = value.estimatedSize ∧
      ∀ part, part <+: bytes → part ≠ bytes → SliceValue.decode libs part = .error .io := by
  obtain ⟨bytes, hencode, hsize, hreads⟩ := SliceKey.stored hkey
  obtain ⟨bytes', hencode', hsize', hreads'⟩ := SliceValue.stored libs hvalue
  refine ⟨⟨bytes, hencode, hreads.whole, hsize, ?_⟩, bytes', hencode', hreads'.whole, hsize', ?_⟩
  · intro part hpart hne
    obtain ⟨e, rfl, hfail⟩ := hreads.torn part hpart hne
    exact hfail
  · intro part hpart hne
    obtain ⟨e, rfl, hfail⟩ := hreads'.torn part hpart hne
    exact hfail

namespace Scenario

/-- A header that tells an empty text from an absent one. -/
def emptyTag : SliceHeader where
  sliceSize := 1024
  totalLen := 10000
  generation := 3
  etag := some ""
  lastModified := none
  contentType := some "text/plain"

theorem emptyTag_fits : emptyTag.Fits where
  sliceSize := by decide
  totalLen := by decide
  generation := by decide
  etag := by
    intro v h
    cases h
    decide
  lastModified := by
    intro v h
    cases h
  contentType := by
    intro v h
    cases h
    decide

/-- A checksum that counts the bytes. -/
def counting : CodeLibs where
  xxh3_64 := fun bytes => UInt64.ofNat bytes.length
  utf8Error := fun _ => "invalid utf-8"

def firstKey : SliceKey := { object := ⟨List.replicate 16 7, rfl⟩, generation := 3, index := 0 }

def shortValue : SliceValue := { header := emptyTag, payload := [1, 2, 3] }

theorem slice_codec_round_trip_empty_tag : ∃ bytes, shortValue.encode counting = .ok bytes ∧
    (∀ rest, SliceValue.decode counting (bytes ++ rest) = .ok (shortValue, rest)) ∧
    bytes.length = 57 ∧
    ∀ part, part <+: bytes → part ≠ bytes → SliceValue.decode counting part = .error .io :=
  (slice_codec_round_trip counting firstKey ⟨by decide, by decide⟩ shortValue
    ⟨emptyTag_fits, by decide⟩).2

end Scenario

end Cachic
