import Cachic.Lib.Codec
import Cachic.Headers

/-!
# The host name of a ClientHello

The first record a client sends on the TLS port is read for the name in its `server_name`
extension and for nothing else.  Every length in it is the client's, so every read is checked
and a record that does not hold what it declares has no name.

`server_name_exact` is the whole grammar of what is accepted, and that nothing after the
record matters once the record is there.
-/

namespace Cachic

open ByteCodec

namespace ClientHello

/-- The record type of a handshake. -/
def recordHandshake : ℕ := 0x16

/-- The message type of a ClientHello. -/
def handshakeClientHello : ℕ := 0x01

/-- The `server_name` extension. -/
def extServerName : ℕ := 0x0000

/-- The name type `host_name` within it. -/
def nameTypeHost : ℕ := 0x00

/-- The largest ClientHello that is buffered. -/
def maxClientHello : ℕ := 16 * 1024 + 5

/-! ## The reader

Its state is what it has not read. -/

namespace Reader

def take (n : ℕ) : Decoder Unit (List UInt8) := readExact () n

def u8 : Decoder Unit ℕ := readBE () 1

def u16 : Decoder Unit ℕ := readBE () 2

def skipU8Vec : Decoder Unit Unit := do
  let _ ← readVec () 1

def skipU16Vec : Decoder Unit Unit := do
  let _ ← readVec () 2

end Reader

/-- Whether a buffer looks like the start of a TLS handshake. -/
def looksLikeTls : List UInt8 → Bool
  | first :: _ => first.toNat = recordHandshake
  | [] => false

/-- The length of the whole record, once its header is there. -/
def recordLength : List UInt8 → Option ℕ
  | _ :: _ :: _ :: high :: low :: _ => some (ofBeBytes [high, low] + 5)
  | _ => none

/-- The record's body: as much of the declared length as there is. -/
def recordBody (record : List UInt8) : Decoder Unit (List UInt8) := do
  let kind ← Reader.u8
  if kind ≠ recordHandshake then throw ()
  else
    let _version ← Reader.u16
    let recordLen ← Reader.u16
    Reader.take (min recordLen (record.length - 5))

/-- The extension block of a ClientHello. -/
def extensions : Decoder Unit (List UInt8) := do
  let kind ← Reader.u8
  if kind ≠ handshakeClientHello then throw ()
  else
    let _high ← Reader.u8
    let _low ← Reader.u16
    let _clientVersion ← Reader.u16
    let _random ← Reader.take 32
    Reader.skipU8Vec
    Reader.skipU16Vec
    Reader.skipU8Vec
    readVec () 2

/-- One entry of a block: its kind, of `w` bytes, and its data. -/
def entry (w : ℕ) : Decoder Unit (ℕ × List UInt8) := do
  let kind ← readBE () w
  let data ← readVec () 2
  return (kind, data)

theorem entry_eq_ok {w kind : ℕ} {bytes data rest : List UInt8} :
    entry w bytes = .ok ((kind, data), rest) ↔
      (kind < 256 ^ w ∧ data.length < 256 ^ 2) ∧
        bytes = beBytes w kind ++ (vec 2 data ++ rest) := by
  simp only [entry, Decoder.bind_eq_ok, readBE_eq_ok, readVec_eq_ok]
  constructor
  · rintro ⟨kind', mid, ⟨hkind, rfl⟩, data', rest', ⟨hdata, rfl⟩, heq⟩
    cases heq
    exact ⟨⟨hkind, hdata⟩, rfl⟩
  · rintro ⟨⟨hkind, hdata⟩, rfl⟩
    exact ⟨kind, vec 2 data ++ rest, ⟨hkind, rfl⟩, data, rest, ⟨hdata, rfl⟩, rfl⟩

/-- The data of the first entry of a kind, whatever the entries before it are.  An entry that
is not complete ends the search: the source leaves the loop or the whole function, and either
way there is no name. -/
def firstOfKind (w wanted : ℕ) (bytes : List UInt8) : Option (List UInt8) :=
  match _hentry : entry w bytes with
  | .error _ => none
  | .ok ((kind, data), rest) => if kind ≠ wanted then firstOfKind w wanted rest else some data
termination_by bytes.length
decreasing_by
  rw [(entry_eq_ok.mp _hentry).2]
  simp [vec]
  omega

/-- The text of a name: not empty, and ASCII, since anything else cannot be resolved. -/
def hostName (name : List UInt8) : Option (List Char) :=
  match fromUtf8 name with
  | none => none
  | some host =>
      if host.utf8ByteSize = 0 || !(utf8Bytes host).all (fun b => b.toNat < 128) then none
      else some (asciiLower host.toList)

/-- The host name a record carries. -/
def serverName (record : List UInt8) : Option (List Char) := do
  let body ← (recordBody record).front? record
  let block ← extensions.front? body
  let data ← firstOfKind 2 extServerName block
  let list ← (readVec () 2).front? data
  let name ← firstOfKind 1 nameTypeHost list
  hostName name

/-! ## The grammar -/

/-- An entry that is complete. -/
structure Entry where
  kind : ℕ
  data : List UInt8

def Entry.bytes (w : ℕ) (e : Entry) : List UInt8 := beBytes w e.kind ++ vec 2 e.data

/-- A block that starts with entries of other kinds and then one of kind `wanted`. -/
def StartsWith (w wanted : ℕ) (data block : List UInt8) : Prop :=
  ∃ (others : List Entry) (after : List UInt8),
    (∀ e ∈ others, e.kind ≠ wanted ∧ e.kind < 256 ^ w ∧ e.data.length < 256 ^ 2) ∧
      data.length < 256 ^ 2 ∧
      block = others.flatMap (Entry.bytes w) ++ (beBytes w wanted ++ (vec 2 data ++ after))

theorem firstOfKind_entry {w wanted : ℕ} {e : Entry} (hkind : e.kind < 256 ^ w)
    (hdata : e.data.length < 256 ^ 2) (rest : List UInt8) :
    firstOfKind w wanted (e.bytes w ++ rest) =
      if e.kind ≠ wanted then firstOfKind w wanted rest else some e.data := by
  have hentry : entry w (e.bytes w ++ rest) = .ok ((e.kind, e.data), rest) :=
    entry_eq_ok.mpr ⟨⟨hkind, hdata⟩, List.append_assoc _ _ _⟩
  rw [firstOfKind]
  split
  · next h =>
      rw [hentry] at h
      cases h
  · next h =>
      rw [hentry] at h
      cases h
      rfl

theorem firstOfKind_eq_some {w wanted : ℕ} (hwanted : wanted < 256 ^ w)
    {block data : List UInt8} :
    firstOfKind w wanted block = some data ↔ StartsWith w wanted data block := by
  constructor
  · intro h
    fun_induction firstOfKind w wanted block with
    | case1 bytes e hentry => cases h
    | case2 bytes kind data' rest hentry hkind ih =>
        obtain ⟨others, after, hothers, hdata, rfl⟩ := ih h
        obtain ⟨⟨hlt, hlen⟩, rfl⟩ := entry_eq_ok.mp hentry
        refine ⟨⟨kind, data'⟩ :: others, after, ?_, hdata, ?_⟩
        · intro e he
          rcases List.mem_cons.mp he with rfl | he
          · exact ⟨hkind, hlt, hlen⟩
          · exact hothers e he
        · simp [Entry.bytes]
    | case3 bytes kind data' rest hentry hkind =>
        obtain ⟨⟨-, hlen⟩, rfl⟩ := entry_eq_ok.mp hentry
        cases h
        exact ⟨[], rest, nofun, hlen, by rw [not_not.mp hkind]; rfl⟩
  · rintro ⟨others, after, hothers, hdata, rfl⟩
    induction others with
    | nil =>
        have hfirst : firstOfKind w wanted (Entry.bytes w ⟨wanted, data⟩ ++ after) = some data :=
          (firstOfKind_entry hwanted hdata after).trans (if_neg (not_not.mpr rfl))
        rw [← hfirst]
        simp [Entry.bytes]
    | cons e others ih =>
        obtain ⟨hkind, hlt, hlen⟩ := hothers e List.mem_cons_self
        have hrest := ih fun e' he' => hothers e' (List.mem_cons_of_mem e he')
        rw [List.flatMap_cons, List.append_assoc, firstOfKind_entry hlt hlen, if_pos hkind, hrest]

theorem hostName_eq_some {name : List UInt8} {host : List Char} :
    hostName name = some host ↔
      name ≠ [] ∧ (∀ b ∈ name, b.toNat < 128) ∧ host = asciiLower (name.map asciiChar) := by
  unfold hostName
  constructor
  · intro h
    split at h
    · cases h
    · next text htext =>
        have hbytes := utf8Bytes_of_fromUtf8 htext
        split at h
        · cases h
        · next hok =>
            rw [← length_utf8Bytes, hbytes] at hok
            simp only [Bool.or_eq_true, decide_eq_true_eq, Bool.not_eq_true', not_or,
              List.length_eq_zero_iff, Bool.not_eq_false, List.all_eq_true] at hok
            obtain ⟨hne, hascii⟩ := hok
            rw [fromUtf8_of_ascii hascii] at htext
            cases htext
            refine ⟨hne, hascii, ?_⟩
            rw [← Option.some.inj h, String.toList_ofList]
  · rintro ⟨hne, hascii, rfl⟩
    have hbytes := utf8Bytes_of_fromUtf8 (fromUtf8_of_ascii hascii)
    rw [fromUtf8_of_ascii hascii]
    show (if _ then none else some _) = some _
    rw [← length_utf8Bytes, hbytes, String.toList_ofList, if_neg]
    simpa [hne] using hascii

/-- The body of a ClientHello with this extension block.  Anything may follow the block. -/
def HelloBody (block body : List UInt8) : Prop :=
  ∃ length version random session ciphers compression after : List UInt8,
    length.length = 3 ∧ version.length = 2 ∧ random.length = 32 ∧ session.length < 256 ∧
      ciphers.length < 256 ^ 2 ∧ compression.length < 256 ∧ block.length < 256 ^ 2 ∧
      body = 0x01 :: (length ++ (version ++ (random ++ (vec 1 session ++ (vec 2 ciphers ++
        (vec 1 compression ++ (vec 2 block ++ after)))))))

/-- A record with this body: the declared length of it, or what there is. -/
def RecordOf (body record : List UInt8) : Prop :=
  ∃ (version : List UInt8) (length : ℕ) (rest : List UInt8),
    version.length = 2 ∧ length < 256 ^ 2 ∧
      record = 0x16 :: (version ++ (beBytes 2 length ++ rest)) ∧
      body = rest.take (min length (record.length - 5))

/-- A record that names a host: in the first name of type `host_name` of the first
`server_name` extension. -/
def Names (host : List Char) (record : List UInt8) : Prop :=
  ∃ body block data list after name : List UInt8,
    RecordOf body record ∧ HelloBody block body ∧ StartsWith 2 extServerName data block ∧
      list.length < 256 ^ 2 ∧ data = vec 2 list ++ after ∧
      StartsWith 1 nameTypeHost name list ∧ name ≠ [] ∧ (∀ b ∈ name, b.toNat < 128) ∧
      host = asciiLower (name.map asciiChar)

theorem u8_eq_ok {n : ℕ} {bytes rest : List UInt8} :
    Reader.u8 bytes = .ok (n, rest) ↔ n < 256 ∧ bytes = UInt8.ofNat n :: rest := by
  rw [Reader.u8, readBE_eq_ok]
  rfl

theorem u16_eq_ok {n : ℕ} {bytes rest : List UInt8} :
    Reader.u16 bytes = .ok (n, rest) ↔ n < 256 ^ 2 ∧ bytes = beBytes 2 n ++ rest := readBE_eq_ok

theorem exists_u16_eq_ok {bytes rest : List UInt8} :
    (∃ n, Reader.u16 bytes = .ok (n, rest)) ↔
      ∃ field : List UInt8, field.length = 2 ∧ bytes = field ++ rest := exists_readBE_eq_ok

theorem take_eq_ok {n : ℕ} {bytes field rest : List UInt8} :
    Reader.take n bytes = .ok (field, rest) ↔ field.length = n ∧ bytes = field ++ rest :=
  readExact_eq_ok

/-- A field that is skipped. -/
theorem skip_eq_ok {w : ℕ} {u : Unit} {bytes rest : List UInt8} :
    (do let _ ← readVec () w : Decoder Unit Unit) bytes = .ok (u, rest) ↔
      ∃ field : List UInt8, field.length < 256 ^ w ∧ bytes = vec w field ++ rest := by
  simp only [Decoder.bind_eq_ok, readVec_eq_ok]
  constructor
  · rintro ⟨field, mid, hfield, heq⟩
    cases heq
    exact ⟨field, hfield⟩
  · rintro ⟨field, hfield⟩
    exact ⟨field, rest, hfield, rfl⟩

theorem skipU8Vec_eq_ok {u : Unit} {bytes rest : List UInt8} :
    Reader.skipU8Vec bytes = .ok (u, rest) ↔
      ∃ field : List UInt8, field.length < 256 ∧ bytes = vec 1 field ++ rest := skip_eq_ok

theorem skipU16Vec_eq_ok {u : Unit} {bytes rest : List UInt8} :
    Reader.skipU16Vec bytes = .ok (u, rest) ↔
      ∃ field : List UInt8, field.length < 256 ^ 2 ∧ bytes = vec 2 field ++ rest := skip_eq_ok

theorem recordBody_eq_some {record body : List UInt8} :
    (recordBody record).front? record = some body ↔ RecordOf body record := by
  rw [Decoder.front?_eq_some]
  constructor
  · rintro ⟨rest, h⟩
    obtain ⟨kind, bytes, hkind, hbytes⟩ := Decoder.bind_eq_ok.mp h
    obtain ⟨-, hrecord⟩ := u8_eq_ok.mp hkind
    split at hbytes
    · cases hbytes
    · next hhandshake =>
        simp only [Decoder.bind_eq_ok, u16_eq_ok, take_eq_ok] at hbytes
        obtain ⟨version, _, ⟨-, rfl⟩, length, _, ⟨hlt, rfl⟩, hbody, rfl⟩ := hbytes
        refine ⟨beBytes 2 version, length, body ++ rest, length_beBytes 2 version, hlt, ?_, ?_⟩
        · rw [hrecord, not_not.mp hhandshake]
          rfl
        · rw [← hbody, List.take_left]
  · rintro ⟨version, length, rest, hversion, hlt, hrecord, rfl⟩
    obtain ⟨word, hword⟩ := exists_u16_eq_ok.mpr ⟨version, hversion, rfl⟩
    have hrest : rest.length = record.length - 5 := by
      simp [hrecord, hversion]
      omega
    refine ⟨rest.drop (min length (record.length - 5)), ?_⟩
    refine Decoder.bind_eq_ok.mpr ⟨recordHandshake, _, u8_eq_ok.mpr ⟨by decide, hrecord⟩, ?_⟩
    rw [if_neg (not_not.mpr rfl)]
    refine Decoder.bind_eq_ok.mpr ⟨word, _, hword, Decoder.bind_eq_ok.mpr
      ⟨length, rest, u16_eq_ok.mpr ⟨hlt, rfl⟩, take_eq_ok.mpr ⟨?_, ?_⟩⟩⟩
    · rw [List.length_take, hrest]
      omega
    · exact (List.take_append_drop _ rest).symm

theorem extensions_eq_some {body block : List UInt8} :
    extensions.front? body = some block ↔ HelloBody block body := by
  rw [Decoder.front?_eq_some]
  constructor
  · rintro ⟨after, h⟩
    obtain ⟨kind, bytes, hkind, hbytes⟩ := Decoder.bind_eq_ok.mp h
    obtain ⟨-, rfl⟩ := u8_eq_ok.mp hkind
    split at hbytes
    · cases hbytes
    · next hhello =>
        simp only [Decoder.bind_eq_ok, u8_eq_ok, u16_eq_ok, take_eq_ok, skipU8Vec_eq_ok,
          skipU16Vec_eq_ok, readVec_eq_ok] at hbytes
        obtain ⟨high, _, ⟨-, rfl⟩, low, _, ⟨-, rfl⟩, version, _, ⟨-, rfl⟩, random, _,
          ⟨hrandom, rfl⟩, _, _, ⟨session, hsession, rfl⟩, _, _, ⟨ciphers, hciphers, rfl⟩, _, _,
          ⟨compression, hcompression, rfl⟩, hblock, rfl⟩ := hbytes
        rw [not_not.mp hhello]
        exact ⟨UInt8.ofNat high :: beBytes 2 low, beBytes 2 version, random, session, ciphers,
          compression, after, by simp, length_beBytes 2 version, hrandom, hsession, hciphers,
          hcompression, hblock, rfl⟩
  · rintro ⟨length, version, random, session, ciphers, compression, after, hlength, hversion,
      hrandom, hsession, hciphers, hcompression, hblock, rfl⟩
    obtain ⟨high, low, rfl⟩ : ∃ high low, length = high :: low :=
      List.exists_cons_of_length_pos (by omega)
    obtain ⟨word, hword⟩ := exists_u16_eq_ok.mpr ⟨low, Nat.succ.inj hlength, rfl⟩
    obtain ⟨word', hword'⟩ := exists_u16_eq_ok.mpr ⟨version, hversion, rfl⟩
    refine ⟨after, Decoder.bind_eq_ok.mpr ⟨handshakeClientHello, _,
      u8_eq_ok.mpr ⟨by decide, rfl⟩, ?_⟩⟩
    rw [if_neg (not_not.mpr rfl)]
    simp only [Decoder.bind_eq_ok]
    exact ⟨high.toNat, _, u8_eq_ok.mpr ⟨high.toNat_lt, by rw [UInt8.ofNat_toNat]; rfl⟩,
      word, _, hword, word', _, hword', random, _, take_eq_ok.mpr ⟨hrandom, rfl⟩,
      (), _, skipU8Vec_eq_ok.mpr ⟨session, hsession, rfl⟩,
      (), _, skipU16Vec_eq_ok.mpr ⟨ciphers, hciphers, rfl⟩,
      (), _, skipU8Vec_eq_ok.mpr ⟨compression, hcompression, rfl⟩,
      readVec_eq_ok.mpr ⟨hblock, rfl⟩⟩

theorem serverName_eq_some {record : List UInt8} {host : List Char} :
    serverName record = some host ↔ Names host record := by
  have hext : extServerName < 256 ^ 2 := by decide
  have htype : nameTypeHost < 256 ^ 1 := by decide
  simp only [serverName, Option.bind_eq_bind, Option.bind_eq_some_iff, recordBody_eq_some,
    extensions_eq_some, firstOfKind_eq_some hext, firstOfKind_eq_some htype, hostName_eq_some]
  simp only [Decoder.front?_eq_some, readVec_eq_ok]
  constructor
  · rintro ⟨body, hbody, block, hblock, data, hdata, list, ⟨after, hlist, rfl⟩, name, hname, hhost⟩
    exact ⟨body, block, _, list, after, name, hbody, hblock, hdata, hlist, rfl, hname, hhost⟩
  · rintro ⟨body, block, data, list, after, name, hbody, hblock, hdata, hlist, rfl, hname, hhost⟩
    exact ⟨body, hbody, block, hblock, _, hdata, list, ⟨after, hlist, rfl⟩, name, hname, hhost⟩

/-- What a record's header says of its body. -/
theorem recordOf_cons {kind v v' high low : UInt8} {rest body : List UInt8} :
    RecordOf body (kind :: v :: v' :: high :: low :: rest) ↔
      kind = 0x16 ∧ body = rest.take (ofBeBytes [high, low]) := by
  constructor
  · rintro ⟨version, length, rest', hversion, hlt, hrecord, rfl⟩
    obtain ⟨w, w', rfl⟩ := List.length_eq_two.mp hversion
    have hword := length_beBytes 2 length
    obtain ⟨b, b', hbytes⟩ := List.length_eq_two.mp hword
    have hvalue := ofBeBytes_beBytes hlt
    rw [hbytes] at hrecord hvalue
    simp only [List.cons_append, List.nil_append, List.cons.injEq] at hrecord
    obtain ⟨rfl, rfl, rfl, rfl, rfl, rfl⟩ := hrecord
    refine ⟨rfl, ?_⟩
    rw [hvalue, List.take_eq_take_iff]
    simp
  · rintro ⟨rfl, rfl⟩
    refine ⟨[v, v'], ofBeBytes [high, low], rest, rfl, ofBeBytes_lt [high, low], ?_, ?_⟩
    · have hbytes := beBytes_ofBeBytes [high, low]
      rw [List.length_cons, List.length_singleton] at hbytes
      rw [hbytes]
      rfl
    · rw [List.take_eq_take_iff]
      simp

/-- A record that is complete has the same body whatever follows it. -/
theorem recordOf_append {record more body : List UInt8} {needed : ℕ}
    (hneeded : recordLength record = some needed) (hle : needed ≤ record.length) :
    RecordOf body (record ++ more) ↔ RecordOf body record := by
  match record, hneeded with
  | kind :: v :: v' :: high :: low :: rest, hneeded =>
      have hlen : ofBeBytes [high, low] ≤ rest.length := by
        cases hneeded
        simpa using hle
      simp only [List.cons_append, recordOf_cons, List.take_append_of_le_length hlen]

theorem serverName_append {record : List UInt8} {needed : ℕ}
    (hneeded : recordLength record = some needed) (hle : needed ≤ record.length)
    (more : List UInt8) : serverName (record ++ more) = serverName record := by
  ext host
  have hbody := fun body => @recordOf_append record more body needed hneeded hle
  simp only [serverName_eq_some, Names, hbody]

end ClientHello

open ClientHello in
/-- **ClientHello parsing is exact**: a host is found just in the records that name it, and it
is found there whatever follows a record that is complete. -/
theorem server_name_exact (record : List UInt8) :
    (∀ host, serverName record = some host ↔ Names host record) ∧
      ∀ needed, recordLength record = some needed → needed ≤ record.length →
        ∀ more, serverName (record ++ more) = serverName record :=
  ⟨fun _ => serverName_eq_some, fun _ hneeded hle more => serverName_append hneeded hle more⟩

namespace Scenario

open ClientHello

/-- The extension block of a hello for the host `A`. -/
def blockForA : List UInt8 := [0, 0, 0, 6, 0, 4, 0, 0, 1, 65]

/-- A hello for the host `A`, and the version bytes of another record. -/
def helloForA : List UInt8 :=
  [22, 3, 1, 0, 54] ++ ([1, 0, 0, 50] ++ ([3, 3] ++ (List.replicate 32 7 ++
    ([0] ++ ([0, 0] ++ ([0] ++ ([0, 10] ++ blockForA)))))))

theorem names_helloForA : Names ['a'] helloForA :=
  ⟨helloForA.drop 5, blockForA, [0, 4, 0, 0, 1, 65], [0, 0, 1, 65], [], [65],
    ⟨[3, 1], 54, helloForA.drop 5, rfl, by decide, rfl, rfl⟩,
    ⟨[0, 0, 50], [3, 3], List.replicate 32 7, [], [], [], [], rfl, rfl, rfl, by decide,
      by decide, by decide, by decide, rfl⟩,
    ⟨[], [], nofun, by decide, rfl⟩, by decide, rfl, ⟨[], [], nofun, by decide, rfl⟩, nofun,
    fun b hb => by cases List.mem_singleton.mp hb; decide, rfl⟩

theorem server_name_exact_helloForA : serverName helloForA = some ['a'] ∧
    serverName (helloForA ++ [22, 3, 1]) = some ['a'] :=
  have hname := ((server_name_exact helloForA).1 ['a']).mpr names_helloForA
  ⟨hname, ((server_name_exact helloForA).2 59 rfl (by decide) [22, 3, 1]).trans hname⟩

end Scenario

end Cachic
