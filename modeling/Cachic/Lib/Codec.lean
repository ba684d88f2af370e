import Mathlib.Tactic

/-!
# Reading a format off the front of a byte string

A `Decoder` takes a value off the front of a list of bytes and leaves the rest, or fails.  It
is a state monad over `Except`, so a decoder of a format is written field by field in `do`
notation.

`Reads E d bytes a` is what a format needs of one: whatever follows `bytes`, the decoder takes
off exactly them and finds `a`, and on a proper part of them it fails, with an error of `E`.
It is closed under sequencing (`Reads.bind`), so a format whose fields are read back in the
order they were written is read back.

For a parser of bytes someone else wrote, `bind_eq_ok`, `readArray_eq_ok` and their like say
which bytes a decoder accepts.
-/

namespace ByteCodec

variable {ε ε' α β : Type}

abbrev Decoder (ε : Type) := StateT (List UInt8) (Except ε)

namespace Decoder

variable {d : Decoder ε α} {bytes rest : List UInt8}

theorem bind_eq_ok {f : α → Decoder ε β} {b : β} :
    (d >>= f) bytes = .ok (b, rest) ↔
      ∃ a mid, d bytes = .ok (a, mid) ∧ f a mid = .ok (b, rest) := by
  show (d bytes >>= fun p => f p.1 p.2) = .ok (b, rest) ↔ _
  rcases d bytes with e | ⟨a, mid⟩
  · simp [bind, Except.bind]
  · simp [bind, Except.bind]

theorem bind_of_ok (f : α → Decoder ε β) {mid : List UInt8} {a : α} (h : d bytes = .ok (a, mid)) :
    (d >>= f) bytes = f a mid := by
  show (d bytes >>= fun p => f p.1 p.2) = _
  rw [h]
  rfl

theorem map_eq_ok {f : α → β} {b : β} :
    (f <$> d) bytes = .ok (b, rest) ↔ ∃ a, d bytes = .ok (a, rest) ∧ f a = b := by
  show (d bytes >>= fun p => Except.ok (f p.1, p.2)) = .ok (b, rest) ↔ _
  rcases d bytes with e | ⟨a, mid⟩
  · simp [bind, Except.bind]
  · simp [bind, Except.bind, and_comm]

/-- What a decoder finds at the front of the bytes, where that is all that is asked. -/
def front? (d : Decoder ε α) (bytes : List UInt8) : Option α :=
  match d bytes with
  | .ok (a, _) => some a
  | .error _ => none

theorem front?_eq_some {a : α} :
    d.front? bytes = some a ↔ ∃ rest, d bytes = .ok (a, rest) := by
  unfold front?
  rcases d bytes with e | ⟨a, rest⟩
  · simp
  · simp

/-- Say something else about a failure. -/
def mapError (g : ε → ε') (d : Decoder ε α) : Decoder ε' α := fun bytes => (d bytes).mapError g

theorem mapError_eq_ok {g : ε → ε'} {a : α} :
    d.mapError g bytes = .ok (a, rest) ↔ d bytes = .ok (a, rest) := by
  show (d bytes).mapError g = .ok (a, rest) ↔ _
  cases d bytes with
  | error e => simp [Except.mapError]
  | ok p => simp [Except.mapError]

/-- Whatever the bytes, the decoder fails with an error of `E` if at all. -/
def FailsIn (E : ε → Prop) (d : Decoder ε α) : Prop := ∀ bytes e, d bytes = .error e → E e

namespace FailsIn

variable {E : ε → Prop}

theorem pure (a : α) : FailsIn E (pure a) := fun _ _ h => by cases h

theorem throw {e : ε} (h : E e) : FailsIn E (throw e : Decoder ε α) := by
  rintro bytes _ ⟨⟩
  exact h

theorem bind {d : Decoder ε α} {f : α → Decoder ε β} (hd : FailsIn E d)
    (hf : ∀ a, FailsIn E (f a)) : FailsIn E (d >>= f) := by
  intro bytes e h
  have h : (d bytes >>= fun p => f p.1 p.2) = .error e := h
  cases hbytes : d bytes with
  | error e' =>
      rw [hbytes] at h
      cases h
      exact hd bytes e hbytes
  | ok p =>
      rw [hbytes] at h
      exact hf p.1 p.2 e h

theorem mapError {E' : ε' → Prop} {g : ε → ε'} (d : Decoder ε α) (hg : ∀ e, E' (g e)) :
    FailsIn E' (d.mapError g) := by
  intro bytes e h
  have h : (d bytes).mapError g = .error e := h
  cases hbytes : d bytes with
  | error e' =>
      rw [hbytes] at h
      cases h
      exact hg e'
  | ok p =>
      rw [hbytes] at h
      cases h

end FailsIn

end Decoder

/-- The next `n` bytes, as an array of that length. -/
def readArray (short : ε) (n : ℕ) : Decoder ε {field : List UInt8 // field.length = n} :=
  fun bytes =>
    if h : n ≤ bytes.length then .ok (⟨bytes.take n, List.length_take_of_le h⟩, bytes.drop n)
    else .error short

/-- The next `n` bytes. -/
def readExact (short : ε) (n : ℕ) : Decoder ε (List UInt8) := Subtype.val <$> readArray short n

variable {n w : ℕ} {bytes rest : List UInt8} {short : ε} {s : String} {b : UInt8}

theorem readArray_of_lt (short : ε) (h : bytes.length < n) :
    readArray short n bytes = .error short := dif_neg (not_le.mpr h)

theorem readArray_append (short : ε) (field : {field : List UInt8 // field.length = n})
    (rest : List UInt8) : readArray short n (field.1 ++ rest) = .ok (field, rest) := by
  obtain ⟨field, rfl⟩ := field
  simp [readArray]

theorem readArray_eq_ok {field : {field : List UInt8 // field.length = n}} :
    readArray short n bytes = .ok (field, rest) ↔ bytes = field.1 ++ rest := by
  constructor
  · intro h
    unfold readArray at h
    split at h
    · cases h
      exact (List.take_append_drop n bytes).symm
    · cases h
  · rintro rfl
    exact readArray_append short field rest

theorem readExact_eq_ok {field : List UInt8} :
    readExact short n bytes = .ok (field, rest) ↔ field.length = n ∧ bytes = field ++ rest := by
  rw [readExact, Decoder.map_eq_ok]
  constructor
  · rintro ⟨field, hread, rfl⟩
    exact ⟨field.2, readArray_eq_ok.mp hread⟩
  · rintro ⟨hlen, hbytes⟩
    exact ⟨⟨field, hlen⟩, readArray_eq_ok.mpr hbytes, rfl⟩

/-! ## What a decoder reads back -/

/-- The decoder takes exactly `bytes` off whatever starts with them and finds `a`; on a proper
part of them it fails with an error of `E`. -/
structure Reads (E : ε → Prop) (d : Decoder ε α) (bytes : List UInt8) (a : α) : Prop where
  whole : ∀ rest, d (bytes ++ rest) = .ok (a, rest)
  torn : ∀ part, part <+: bytes → part ≠ bytes → ∃ e, E e ∧ d part = .error e

/-- A proper part of two fields tears the first, or holds it and tears the second. -/
theorem torn_append {part first second : List UInt8} (h : part <+: first ++ second)
    (hne : part ≠ first ++ second) :
    (part <+: first ∧ part ≠ first) ∨
      ∃ tail, part = first ++ tail ∧ tail <+: second ∧ tail ≠ second := by
  rcases List.prefix_or_prefix_of_prefix h (List.prefix_append first second) with hin | ⟨tail, rfl⟩
  · by_cases hall : part = first
    · subst hall
      exact .inr ⟨[], by simp, List.nil_prefix, by rintro rfl; simp at hne⟩
    · exact .inl ⟨hin, hall⟩
  · exact .inr ⟨tail, rfl, (List.prefix_append_right_inj first).mp h, fun heq => hne (heq ▸ rfl)⟩

namespace Reads

variable {E : ε → Prop} {d : Decoder ε α} {bytes : List UInt8} {a : α}

theorem pure (a : α) : Reads E (pure a) [] a where
  whole := fun _ => rfl
  torn := fun _ hpart hne => absurd (List.prefix_nil.mp hpart) hne

theorem bind {f : α → Decoder ε β} {more : List UInt8} {b : β} (hd : Reads E d bytes a)
    (hf : Reads E (f a) more b) : Reads E (d >>= f) (bytes ++ more) b where
  whole := by
    intro rest
    rw [List.append_assoc, Decoder.bind_eq_ok]
    exact ⟨a, more ++ rest, hd.whole _, hf.whole rest⟩
  torn := by
    intro part hpart hne
    show ∃ e, E e ∧ (d part >>= fun p => f p.1 p.2) = .error e
    rcases torn_append hpart hne with ⟨hin, htorn⟩ | ⟨tail, rfl, htail, htorn⟩
    · obtain ⟨e, he, hfail⟩ := hd.torn part hin htorn
      exact ⟨e, he, by rw [hfail]; rfl⟩
    · obtain ⟨e, he, hfail⟩ := hf.torn tail htail htorn
      exact ⟨e, he, by rw [hd.whole tail]; exact hfail⟩

/-- What is computed from the last field costs no bytes. -/
theorem last {f : α → Decoder ε β} {b : β} (hd : Reads E d bytes a) (hf : Reads E (f a) [] b) :
    Reads E (d >>= f) bytes b := by
  have h := hd.bind hf
  rw [List.append_nil] at h
  exact h

theorem map (f : α → β) (hd : Reads E d bytes a) : Reads E (f <$> d) bytes (f a) :=
  hd.last (f := fun a => Pure.pure (f a)) (Reads.pure (f a))

theorem mapError {E' : ε' → Prop} {g : ε → ε'} (hd : Reads E d bytes a)
    (hg : ∀ e, E e → E' (g e)) : Reads E' (d.mapError g) bytes a where
  whole := by
    intro rest
    show (d (bytes ++ rest)).mapError g = _
    rw [hd.whole rest]
    rfl
  torn := by
    intro part hpart hne
    obtain ⟨e, he, hfail⟩ := hd.torn part hpart hne
    refine ⟨g e, hg e he, ?_⟩
    show (d part).mapError g = _
    rw [hfail]
    rfl

theorem readArray {short : ε} (hshort : E short) {n : ℕ}
    (field : {field : List UInt8 // field.length = n}) :
    Reads E (ByteCodec.readArray short n) field.1 field where
  whole := readArray_append short field
  torn := by
    intro part hpart hne
    have hlt : part.length < field.1.length :=
      lt_of_le_of_ne hpart.length_le fun heq => hne (hpart.eq_of_length heq)
    rw [field.2] at hlt
    exact ⟨short, hshort, readArray_of_lt short hlt⟩

theorem readExact {short : ε} (hshort : E short) (field : List UInt8) :
    Reads E (ByteCodec.readExact short field.length) field field :=
  (Reads.readArray hshort ⟨field, rfl⟩).map Subtype.val

end Reads

/-! ## Words -/

/-- The low `w` bytes of a number, least significant first. -/
def leBytes : ℕ → ℕ → List UInt8
  | 0, _ => []
  | w + 1, n => UInt8.ofNat n :: leBytes w (n / 256)

def ofLeBytes : List UInt8 → ℕ
  | [] => 0
  | b :: rest => b.toNat + 256 * ofLeBytes rest

@[simp] theorem length_leBytes (w n : ℕ) : (leBytes w n).length = w := by
  induction w generalizing n with
  | zero => rfl
  | succ w ih => exact congrArg (· + 1) (ih (n / 256))

theorem ofLeBytes_leBytes (h : n < 256 ^ w) : ofLeBytes (leBytes w n) = n := by
  induction w generalizing n with
  | zero =>
      rw [pow_zero] at h
      exact (Nat.lt_one_iff.mp h).symm
  | succ w ih =>
      have hlow : (UInt8.ofNat n).toNat = n % 256 := by simp
      have hhigh : n / 256 < 256 ^ w := Nat.div_lt_of_lt_mul (by rw [pow_succ'] at h; exact h)
      show (UInt8.ofNat n).toNat + 256 * ofLeBytes (leBytes w (n / 256)) = n
      rw [hlow, ih hhigh, Nat.mod_add_div]

theorem ofLeBytes_lt (bytes : List UInt8) : ofLeBytes bytes < 256 ^ bytes.length := by
  induction bytes with
  | nil => exact Nat.one_pos
  | cons b rest ih =>
      have hb : b.toNat < 256 := b.toNat_lt
      show b.toNat + 256 * ofLeBytes rest < 256 ^ (rest.length + 1)
      rw [pow_succ']
      omega

theorem leBytes_ofLeBytes (bytes : List UInt8) :
    leBytes bytes.length (ofLeBytes bytes) = bytes := by
  induction bytes with
  | nil => rfl
  | cons b rest ih =>
      have hb : b.toNat < 256 := b.toNat_lt
      have hlow : UInt8.ofNat (b.toNat + 256 * ofLeBytes rest) = b := by
        apply UInt8.toNat_inj.mp
        rw [UInt8.toNat_ofNat']
        omega
      have hhigh : (b.toNat + 256 * ofLeBytes rest) / 256 = ofLeBytes rest := by omega
      show UInt8.ofNat (b.toNat + 256 * ofLeBytes rest) ::
        leBytes rest.length ((b.toNat + 256 * ofLeBytes rest) / 256) = b :: rest
      rw [hlow, hhigh, ih]

/-- Words of one width are told apart by their bytes. -/
theorem leBytes_inj {m : ℕ} (hm : m < 256 ^ w) (hn : n < 256 ^ w) :
    leBytes w m = leBytes w n ↔ m = n := by
  refine ⟨fun h => ?_, fun h => by rw [h]⟩
  rw [← ofLeBytes_leBytes hm, h, ofLeBytes_leBytes hn]

/-- The largest word of 32 bits. -/
def u32Max : ℕ := 2 ^ 32 - 1

/-- A word of `w` bytes, least significant first. -/
def readLE (short : ε) (w : ℕ) : Decoder ε ℕ := ofLeBytes <$> readExact short w

theorem readLE_eq_ok :
    readLE short w bytes = .ok (n, rest) ↔ n < 256 ^ w ∧ bytes = leBytes w n ++ rest := by
  rw [readLE, Decoder.map_eq_ok]
  simp only [readExact_eq_ok]
  constructor
  · rintro ⟨field, ⟨rfl, rfl⟩, rfl⟩
    exact ⟨ofLeBytes_lt field, by rw [leBytes_ofLeBytes]⟩
  · rintro ⟨hlt, rfl⟩
    exact ⟨leBytes w n, ⟨length_leBytes w n, rfl⟩, ofLeBytes_leBytes hlt⟩

theorem Reads.readLE {E : ε → Prop} (hshort : E short) (h : n < 256 ^ w) :
    Reads E (ByteCodec.readLE short w) (leBytes w n) n := by
  have hread := (Reads.readExact hshort (leBytes w n)).map ofLeBytes
  rw [length_leBytes, ofLeBytes_leBytes h] at hread
  exact hread

/-- The low `w` bytes of a number, most significant first. -/
def beBytes (w n : ℕ) : List UInt8 := (leBytes w n).reverse

def ofBeBytes (bytes : List UInt8) : ℕ := ofLeBytes bytes.reverse

@[simp] theorem length_beBytes (w n : ℕ) : (beBytes w n).length = w := by
  rw [beBytes, List.length_reverse, length_leBytes]

theorem ofBeBytes_beBytes (h : n < 256 ^ w) : ofBeBytes (beBytes w n) = n := by
  rw [ofBeBytes, beBytes, List.reverse_reverse, ofLeBytes_leBytes h]

theorem beBytes_ofBeBytes (bytes : List UInt8) :
    beBytes bytes.length (ofBeBytes bytes) = bytes := by
  rw [beBytes, ofBeBytes, ← List.length_reverse, leBytes_ofLeBytes, List.reverse_reverse]

theorem ofBeBytes_lt (bytes : List UInt8) : ofBeBytes bytes < 256 ^ bytes.length := by
  rw [← List.length_reverse]
  exact ofLeBytes_lt bytes.reverse

/-- A word of `w` bytes, most significant first. -/
def readBE (short : ε) (w : ℕ) : Decoder ε ℕ := ofBeBytes <$> readExact short w

theorem readBE_eq_ok :
    readBE short w bytes = .ok (n, rest) ↔ n < 256 ^ w ∧ bytes = beBytes w n ++ rest := by
  rw [readBE, Decoder.map_eq_ok]
  simp only [readExact_eq_ok]
  constructor
  · rintro ⟨field, ⟨rfl, rfl⟩, rfl⟩
    exact ⟨ofBeBytes_lt field, by rw [beBytes_ofBeBytes]⟩
  · rintro ⟨hlt, rfl⟩
    exact ⟨beBytes w n, ⟨length_beBytes w n, rfl⟩, ofBeBytes_beBytes hlt⟩

/-- Any bytes are a word. -/
theorem exists_readBE_eq_ok :
    (∃ n, readBE short w bytes = .ok (n, rest)) ↔
      ∃ field : List UInt8, field.length = w ∧ bytes = field ++ rest := by
  simp only [readBE, Decoder.map_eq_ok, readExact_eq_ok]
  constructor
  · rintro ⟨n, field, hfield, rfl⟩
    exact ⟨field, hfield⟩
  · rintro ⟨field, hfield⟩
    exact ⟨ofBeBytes field, field, hfield, rfl⟩

/-- A field behind its length of `w` bytes. -/
def vec (w : ℕ) (field : List UInt8) : List UInt8 := beBytes w field.length ++ field

def readVec (short : ε) (w : ℕ) : Decoder ε (List UInt8) := do
  let len ← readBE short w
  readExact short len

theorem readVec_eq_ok {field : List UInt8} :
    readVec short w bytes = .ok (field, rest) ↔
      field.length < 256 ^ w ∧ bytes = vec w field ++ rest := by
  rw [readVec, Decoder.bind_eq_ok]
  simp only [readBE_eq_ok, readExact_eq_ok]
  constructor
  · rintro ⟨len, mid, ⟨hlt, rfl⟩, rfl, rfl⟩
    exact ⟨hlt, by rw [vec, List.append_assoc]⟩
  · rintro ⟨hlt, rfl⟩
    exact ⟨field.length, field ++ rest, ⟨hlt, by rw [vec, List.append_assoc]⟩, rfl, rfl⟩

/-! ## Optional fields

A field behind its length, where the largest length stands for a field that is absent. -/

def sized : Option (List UInt8) → List UInt8
  | none => leBytes 4 u32Max
  | some field => leBytes 4 field.length ++ field

/-- `parse` makes something of the field's bytes. -/
def readSized (short : ε) (parse : List UInt8 → Decoder ε (Option α)) :
    Decoder ε (Option α) := do
  let len ← readLE short 4
  if len = u32Max then return none
  else
    let field ← readExact short len
    parse field

/-- An optional field is found absent, or is parsed. -/
theorem readSized_eq_ok {parse : List UInt8 → Decoder ε (Option α)} {value : Option α}
    (h : readSized short parse bytes = .ok (value, rest)) :
    (bytes = sized none ++ rest ∧ value = none) ∨
      ∃ field mid, field.length < u32Max ∧ bytes = sized (some field) ++ mid ∧
        parse field mid = .ok (value, rest) := by
  obtain ⟨len, mid, hlen, hfield⟩ := Decoder.bind_eq_ok.mp h
  obtain ⟨hword, rfl⟩ := readLE_eq_ok.mp hlen
  split at hfield
  · next habsent =>
      subst habsent
      cases hfield
      exact .inl ⟨rfl, rfl⟩
  · next hpresent =>
      obtain ⟨field, mid', hread, hparse⟩ := Decoder.bind_eq_ok.mp hfield
      obtain ⟨rfl, rfl⟩ := readExact_eq_ok.mp hread
      have hlt : field.length < u32Max :=
        lt_of_le_of_ne (Nat.le_of_lt_succ (lt_of_lt_of_eq hword (by decide))) hpresent
      exact .inr ⟨field, mid', hlt, (List.append_assoc _ _ _).symm, hparse⟩

theorem Reads.sized {E : ε → Prop} (hshort : E short) {parse : List UInt8 → Decoder ε (Option α)}
    {stored : Option (List UInt8)} {value : Option α}
    (hlen : ∀ field, stored = some field → field.length < u32Max)
    (habsent : stored = none → value = none)
    (hparse : ∀ field, stored = some field → Reads E (parse field) [] value) :
    Reads E (readSized short parse) (ByteCodec.sized stored) value := by
  cases stored with
  | none =>
      obtain rfl := habsent rfl
      refine (Reads.readLE hshort (by decide)).last ?_
      rw [if_pos rfl]
      exact .pure none
  | some field =>
      have hlt := hlen field rfl
      refine (Reads.readLE hshort (lt_trans hlt (by decide))).bind ?_
      rw [if_neg hlt.ne]
      exact (Reads.readExact hshort field).last (hparse field rfl)

/-! ## One wrong byte -/

/-- The two strings are alike but for their byte at position `i`. -/
def DiffersAt (bytes other : List UInt8) (i : ℕ) : Prop :=
  ∃ front old new tail, bytes = front ++ old :: tail ∧ other = front ++ new :: tail ∧
    old ≠ new ∧ front.length = i

namespace DiffersAt

variable {bytes other first second : List UInt8} {i : ℕ}

theorem length_eq (h : DiffersAt bytes other i) : other.length = bytes.length := by
  obtain ⟨front, old, new, tail, rfl, rfl, -, -⟩ := h
  simp

theorem ne (h : DiffersAt bytes other i) : other ≠ bytes := by
  obtain ⟨front, old, new, tail, rfl, rfl, hne, -⟩ := h
  intro heq
  exact hne (List.head_eq_of_cons_eq (List.append_cancel_left heq)).symm

theorem lt_length (h : DiffersAt bytes other i) : i < bytes.length := by
  obtain ⟨front, old, new, tail, rfl, -, -, rfl⟩ := h
  simp

/-- The wrong byte of two fields is in one of them. -/
theorem append (h : DiffersAt (first ++ second) other i) :
    (∃ first', DiffersAt first first' i ∧ other = first' ++ second) ∨
      ∃ second', DiffersAt second second' (i - first.length) ∧ first.length ≤ i ∧
        other = first ++ second' := by
  obtain ⟨front, old, new, tail, hbytes, rfl, hne, rfl⟩ := h
  rcases List.append_eq_append_iff.mp hbytes with ⟨more, rfl, hsecond⟩ | ⟨more, rfl, htail⟩
  · refine .inr ⟨more ++ new :: tail, ⟨more, old, new, tail, hsecond, rfl, hne, ?_⟩, ?_, ?_⟩
    · simp
    · simp
    · simp
  · cases more with
    | nil =>
        refine .inr ⟨new :: tail, ⟨[], old, new, tail, htail.symm, rfl, hne, ?_⟩, ?_, ?_⟩
        · simp
        · simp
        · simp
    | cons b more =>
        obtain ⟨rfl, rfl⟩ := List.cons.inj htail
        exact .inl ⟨front ++ new :: more, ⟨front, old, new, more, rfl, rfl, hne, rfl⟩, by simp⟩

end DiffersAt

/-! ## Text -/

/-- The bytes of a text. -/
def utf8Bytes (s : String) : List UInt8 := s.toByteArray.data.toList

/-- The text whose bytes these are, if they are those of one. -/
def fromUtf8 (bytes : List UInt8) : Option String := String.fromUTF8? bytes.toByteArray

@[simp] theorem length_utf8Bytes (s : String) : (utf8Bytes s).length = s.utf8ByteSize := rfl

@[simp] theorem fromUtf8_utf8Bytes (s : String) : fromUtf8 (utf8Bytes s) = some s := by
  have hbytes : (utf8Bytes s).toByteArray = s.toByteArray := by
    apply ByteArray.ext
    rw [List.data_toByteArray, utf8Bytes, Array.toArray_toList]
  rw [fromUtf8, hbytes, String.fromUTF8?, dif_pos s.isValidUTF8]
  rfl

theorem utf8Bytes_inj {t : String} : utf8Bytes s = utf8Bytes t ↔ s = t := by
  refine ⟨fun h => ?_, fun h => by rw [h]⟩
  have htext := fromUtf8_utf8Bytes s
  rw [h, fromUtf8_utf8Bytes] at htext
  exact (Option.some.inj htext).symm

/-- Bytes that are those of a text are its bytes. -/
theorem utf8Bytes_of_fromUtf8 (h : fromUtf8 bytes = some s) :
    utf8Bytes s = bytes := by
  rw [fromUtf8, String.fromUTF8?] at h
  split at h
  · cases h
    show bytes.toByteArray.data.toList = bytes
    rw [List.data_toByteArray]
  · cases h

/-- The character of an ASCII byte. -/
def asciiChar (b : UInt8) : Char := Char.ofNat b.toNat

/-- Only an ASCII character has an ASCII byte among its bytes. -/
theorem eq_asciiChar_of_mem {c : Char} (h : b ∈ String.utf8EncodeChar c) (hb : b.toNat < 128) :
    c = asciiChar b := by
  suffices hnat : c.toNat = b.toNat by rw [asciiChar, ← hnat, Char.ofNat_toNat]
  unfold String.utf8EncodeChar at h
  have hval : c.val.toNat = c.toNat := rfl
  simp only [hval] at h
  split at h
  case isTrue =>
      rw [List.mem_singleton] at h
      rw [h, UInt8.toNat_ofNat']
      omega
  case isFalse =>
      -- the bytes of a longer character have their high bit set
      exfalso
      split at h
      · simp only [List.mem_cons, List.not_mem_nil, or_false] at h
        rcases h with rfl | rfl <;> rw [UInt8.toNat_ofNat'] at hb <;> omega
      split at h
      · simp only [List.mem_cons, List.not_mem_nil, or_false] at h
        rcases h with rfl | rfl | rfl <;> rw [UInt8.toNat_ofNat'] at hb <;> omega
      · simp only [List.mem_cons, List.not_mem_nil, or_false] at h
        rcases h with rfl | rfl | rfl | rfl <;> rw [UInt8.toNat_ofNat'] at hb <;> omega

theorem utf8Bytes_eq (s : String) : utf8Bytes s = s.toList.flatMap String.utf8EncodeChar := by
  rw [← String.ofList_toList (s := s), utf8Bytes, String.toByteArray_ofList, List.utf8Encode,
    List.data_toByteArray, String.toList_ofList]

theorem asciiChar_mem (h : b ∈ utf8Bytes s) (hb : b.toNat < 128) :
    asciiChar b ∈ s.toList := by
  rw [utf8Bytes_eq, List.mem_flatMap] at h
  obtain ⟨c, hc, h⟩ := h
  exact eq_asciiChar_of_mem h hb ▸ hc

theorem head?_of_utf8Bytes (h : utf8Bytes s = b :: rest) (hb : b.toNat < 128) :
    s.toList.head? = some (asciiChar b) := by
  rw [utf8Bytes_eq] at h
  cases htext : s.toList with
  | nil =>
      rw [htext] at h
      cases h
  | cons c text =>
      have hne : String.utf8EncodeChar c ≠ [] := String.utf8EncodeChar_ne_nil
      obtain ⟨first, more, hc⟩ := List.exists_cons_of_ne_nil hne
      rw [htext, List.flatMap_cons, hc] at h
      obtain rfl : first = b := List.head_eq_of_cons_eq h
      have hchar : c = asciiChar first := eq_asciiChar_of_mem (hc ▸ List.mem_cons_self) hb
      rw [List.head?_cons, hchar]

/-- ASCII bytes are those of the text they spell. -/
theorem fromUtf8_of_ascii (h : ∀ b ∈ bytes, b.toNat < 128) :
    fromUtf8 bytes = some (String.ofList (bytes.map asciiChar)) := by
  have hchar : ∀ b ∈ bytes, String.utf8EncodeChar (asciiChar b) = [b] := by
    intro b hb
    have hval : (asciiChar b).val.toNat = b.toNat := by
      have hvalid : b.toNat.isValidChar := .inl (by have := h b hb; omega)
      have hof : asciiChar b = Char.ofNatAux b.toNat hvalid := dif_pos hvalid
      rw [hof]
      rfl
    have hsmall : b.toNat ≤ 127 := Nat.le_of_lt_succ (h b hb)
    simp [String.utf8EncodeChar, hval, hsmall]
  have hbytes : utf8Bytes (String.ofList (bytes.map asciiChar)) = bytes := by
    rw [utf8Bytes_eq, String.toList_ofList, List.flatMap_map]
    calc bytes.flatMap (fun b => String.utf8EncodeChar (asciiChar b))
        = bytes.flatMap fun b => [b] := List.flatMap_congr hchar
      _ = bytes := List.flatMap_singleton' bytes
  rw [← hbytes, fromUtf8_utf8Bytes, hbytes]

end ByteCodec
