import Cachic.Lib.AddressBlock
import Cachic.Lib.Text

/-!
# The upstream address guard

An address a name resolved to is refused unless it belongs to the public internet.  IPv4 is
judged by its octets and IPv6 by its segments, in the order of the source; the IPv6 forms that
carry an IPv4 address are judged by it.

`address_guard_judges_alike` says what the fall through these tests comes to: IPv4 passes
outside fourteen blocks, each embedding of an IPv4 address passes iff the address does, and
seven blocks of IPv6 never pass.
-/

namespace Cachic

open AddressBlock CharText

/-! ## Addresses -/

structure Ipv4Addr where
  o0 : ℕ
  o1 : ℕ
  o2 : ℕ
  o3 : ℕ
  lt : o0 < 256 ∧ o1 < 256 ∧ o2 < 256 ∧ o3 < 256 := by decide
  deriving DecidableEq, Repr

structure Ipv6Addr where
  s0 : ℕ
  s1 : ℕ
  s2 : ℕ
  s3 : ℕ
  s4 : ℕ
  s5 : ℕ
  s6 : ℕ
  s7 : ℕ
  lt : s0 < 65536 ∧ s1 < 65536 ∧ s2 < 65536 ∧ s3 < 65536 ∧ s4 < 65536 ∧ s5 < 65536 ∧
    s6 < 65536 ∧ s7 < 65536 := by decide
  deriving DecidableEq, Repr

inductive IpAddr
  | v4 (addr : Ipv4Addr)
  | v6 (addr : Ipv6Addr)
  deriving DecidableEq, Repr

namespace Ipv4Addr

/-- The address as a number of 32 bits. -/
def toNat (a : Ipv4Addr) : ℕ := ((a.o0 * 2 ^ 8 + a.o1) * 2 ^ 8 + a.o2) * 2 ^ 8 + a.o3

def isUnspecified (a : Ipv4Addr) : Bool := a.o0 == 0 && a.o1 == 0 && a.o2 == 0 && a.o3 == 0

def isLoopback (a : Ipv4Addr) : Bool := a.o0 == 127

def isPrivate (a : Ipv4Addr) : Bool :=
  a.o0 == 10 || (a.o0 == 172 && 16 ≤ a.o1 && a.o1 ≤ 31) || (a.o0 == 192 && a.o1 == 168)

def isLinkLocal (a : Ipv4Addr) : Bool := a.o0 == 169 && a.o1 == 254

def isMulticast (a : Ipv4Addr) : Bool := 224 ≤ a.o0 && a.o0 ≤ 239

def isBroadcast (a : Ipv4Addr) : Bool :=
  a.o0 == 255 && a.o1 == 255 && a.o2 == 255 && a.o3 == 255

/-- The address two segments hold. -/
def ofSegments (high low : ℕ) : Ipv4Addr where
  o0 := high / 256 % 256
  o1 := high % 256
  o2 := low / 256 % 256
  o3 := low % 256
  lt := by omega

end Ipv4Addr

namespace Ipv6Addr

/-- The address as a number of 128 bits. -/
def toNat (a : Ipv6Addr) : ℕ :=
  ((((((a.s0 * 2 ^ 16 + a.s1) * 2 ^ 16 + a.s2) * 2 ^ 16 + a.s3) * 2 ^ 16 + a.s4) * 2 ^ 16 +
    a.s5) * 2 ^ 16 + a.s6) * 2 ^ 16 + a.s7

def isUnspecified (a : Ipv6Addr) : Bool :=
  a.s0 == 0 && a.s1 == 0 && a.s2 == 0 && a.s3 == 0 && a.s4 == 0 && a.s5 == 0 && a.s6 == 0 &&
    a.s7 == 0

def isLoopback (a : Ipv6Addr) : Bool :=
  a.s0 == 0 && a.s1 == 0 && a.s2 == 0 && a.s3 == 0 && a.s4 == 0 && a.s5 == 0 && a.s6 == 0 &&
    a.s7 == 1

def isMulticast (a : Ipv6Addr) : Bool := a.s0 &&& 0xff00 == 0xff00

/-- The address of `::ffff:0:0/96`. -/
def toIpv4Mapped (a : Ipv6Addr) : Option Ipv4Addr :=
  if a.s0 == 0 && a.s1 == 0 && a.s2 == 0 && a.s3 == 0 && a.s4 == 0 && a.s5 == 0xffff then
    some (.ofSegments a.s6 a.s7)
  else none

end Ipv6Addr

/-! ## The guard -/

/-- Why an upstream address was refused. -/
inductive Refusal
  | loopback
  | privateAddress
  | linkLocal
  | unspecified
  | multicastOrBroadcast
  | reserved
  deriving DecidableEq, Repr

/-- Documentation blocks and the protocol assignments, by their leading three octets. -/
def reservedOctets : List (ℕ × ℕ × ℕ) := [(192, 0, 0), (192, 0, 2), (198, 51, 100), (203, 0, 113)]

def checkV4 (a : Ipv4Addr) : Except Refusal Unit :=
  if a.isUnspecified then .error .unspecified
  else if a.isLoopback then .error .loopback
  else if a.isPrivate then .error .privateAddress
  else if a.isLinkLocal then .error .linkLocal
  else if a.isMulticast || a.isBroadcast then .error .multicastOrBroadcast
  else if a.o0 == 100 && 64 ≤ a.o1 && a.o1 < 128 then .error .reserved
  else if a.o0 == 0 || 240 ≤ a.o0 then .error .reserved
  else if reservedOctets.any fun net => a.o0 == net.1 && a.o1 == net.2.1 && a.o2 == net.2.2 then
    .error .reserved
  else if a.o0 == 198 && 18 ≤ a.o1 && a.o1 < 20 then .error .reserved
  else .ok ()

/-- The IPv4 address in the other forms that carry one: `::a`, `64:ff9b::a` and `2002:a::`. -/
def embeddedV4 (a : Ipv6Addr) : Option Ipv4Addr :=
  if a.s0 == 0 && a.s1 == 0 && a.s2 == 0 && a.s3 == 0 && a.s4 == 0 && a.s5 == 0 then
    some (.ofSegments a.s6 a.s7)
  else if a.s0 == 0x0064 && a.s1 == 0xff9b then some (.ofSegments a.s6 a.s7)
  else if a.s0 == 0x2002 then some (.ofSegments a.s1 a.s2)
  else none

def checkV6 (a : Ipv6Addr) : Except Refusal Unit :=
  if a.isUnspecified then .error .unspecified
  else if a.isLoopback then .error .loopback
  else if a.isMulticast then .error .multicastOrBroadcast
  else
    match a.toIpv4Mapped with
    | some v4 => checkV4 v4
    | none =>
        match embeddedV4 a with
        | some v4 => checkV4 v4
        | none =>
            -- the server address a Teredo address embeds is not its destination
            if a.s0 == 0x2001 && a.s1 == 0x0000 then .error .reserved
            else if a.s0 &&& 0xfe00 == 0xfc00 then .error .privateAddress
            else if a.s0 &&& 0xffc0 == 0xfe80 then .error .linkLocal
            else if a.s0 == 0x2001 && a.s1 == 0x0db8 then .error .reserved
            else .ok ()

/-- Whether an address may be used as an upstream. -/
def checkAddr (addr : IpAddr) (allowPrivate : Bool) : Except Refusal Unit :=
  if allowPrivate then .ok ()
  else
    match addr with
    | .v4 a => checkV4 a
    | .v6 a => checkV6 a

/-! ## IPv4 -/

/-- The blocks that are not the public internet. -/
def refusedV4 : List (Ipv4Addr × ℕ) :=
  [({ o0 := 0, o1 := 0, o2 := 0, o3 := 0 }, 8), ({ o0 := 10, o1 := 0, o2 := 0, o3 := 0 }, 8),
    ({ o0 := 100, o1 := 64, o2 := 0, o3 := 0 }, 10), ({ o0 := 127, o1 := 0, o2 := 0, o3 := 0 }, 8),
    ({ o0 := 169, o1 := 254, o2 := 0, o3 := 0 }, 16),
    ({ o0 := 172, o1 := 16, o2 := 0, o3 := 0 }, 12), ({ o0 := 192, o1 := 0, o2 := 0, o3 := 0 }, 24),
    ({ o0 := 192, o1 := 0, o2 := 2, o3 := 0 }, 24),
    ({ o0 := 192, o1 := 168, o2 := 0, o3 := 0 }, 16),
    ({ o0 := 198, o1 := 18, o2 := 0, o3 := 0 }, 15),
    ({ o0 := 198, o1 := 51, o2 := 100, o3 := 0 }, 24),
    ({ o0 := 203, o1 := 0, o2 := 113, o3 := 0 }, 24),
    ({ o0 := 224, o1 := 0, o2 := 0, o3 := 0 }, 4), ({ o0 := 240, o1 := 0, o2 := 0, o3 := 0 }, 4)]

namespace Ipv4Addr

/-- A block that ends in the first octet. -/
theorem inBlock_first (a b : Ipv4Addr) {len : ℕ} (h : len ≤ 8) :
    InBlock 32 b.toNat len a.toNat ↔ InBlock 8 b.o0 len a.o0 := by
  have hsplit : ∀ c : Ipv4Addr,
      c.toNat = c.o0 * 2 ^ 24 + (c.o1 * 2 ^ 16 + c.o2 * 2 ^ 8 + c.o3) := by
    intro c
    unfold toNat
    omega
  have hlow : ∀ c : Ipv4Addr, c.o1 * 2 ^ 16 + c.o2 * 2 ^ 8 + c.o3 < 2 ^ 24 := by
    intro c
    have := c.lt
    omega
  rw [hsplit a, hsplit b]
  exact inBlock_leading (hlow b) (hlow a) h

/-- A block that ends in the second octet. -/
theorem inBlock_second (a b : Ipv4Addr) {len : ℕ} (hlow : 8 ≤ len) (hhigh : len ≤ 16) :
    InBlock 32 b.toNat len a.toNat ↔ a.o0 = b.o0 ∧ InBlock 8 b.o1 (len - 8) a.o1 := by
  have hsplit : ∀ c : Ipv4Addr,
      c.toNat = (c.o0 * 2 ^ 8 + c.o1) * 2 ^ 16 + (c.o2 * 2 ^ 8 + c.o3) := by
    intro c
    unfold toNat
    omega
  have hrest : ∀ c : Ipv4Addr, c.o2 * 2 ^ 8 + c.o3 < 2 ^ 16 := by
    intro c
    have := c.lt
    omega
  rw [hsplit a, hsplit b]
  exact (@inBlock_leading 16 16 _ _ _ _ _ (hrest b) (hrest a) hhigh).trans
    (@inBlock_low 8 8 _ _ _ _ _ b.lt.2.1 a.lt.2.1 hlow hhigh)

/-- A block of the first three octets. -/
theorem inBlock_three (a b : Ipv4Addr) :
    InBlock 32 b.toNat 24 a.toNat ↔ a.o0 = b.o0 ∧ a.o1 = b.o1 ∧ a.o2 = b.o2 := by
  have ha := a.lt
  have hb := b.lt
  refine (@inBlock_leading 24 8 _ _ _ _ _ hb.2.2.2 ha.2.2.2 le_rfl).trans (inBlock_full.trans ?_)
  omega

end Ipv4Addr

/-- **IPv4 passes outside the refused blocks**, and only there. -/
theorem checkV4_eq_ok_iff (a : Ipv4Addr) :
    checkV4 a = .ok () ↔ ∀ net ∈ refusedV4, ¬InBlock 32 net.1.toNat net.2 a.toNat := by
  have hlt := a.lt
  -- the blocks that are not cut at an octet, as ranges of one
  have hshared : InBlock 8 64 2 a.o1 ↔ 64 ≤ a.o1 ∧ a.o1 < 128 := by
    simp only [InBlock]
    omega
  have hprivate : InBlock 8 16 4 a.o1 ↔ 16 ≤ a.o1 ∧ a.o1 ≤ 31 := by
    simp only [InBlock]
    omega
  have hbench : InBlock 8 18 7 a.o1 ↔ 18 ≤ a.o1 ∧ a.o1 < 20 := by
    simp only [InBlock]
    omega
  have hmulticast : InBlock 8 224 4 a.o0 ↔ 224 ≤ a.o0 ∧ a.o0 ≤ 239 := by
    simp only [InBlock]
    omega
  have hhigh : InBlock 8 240 4 a.o0 ↔ 240 ≤ a.o0 := by
    simp only [InBlock]
    omega
  simp only [checkV4, ite_error_eq_ok, Ipv4Addr.isUnspecified, Ipv4Addr.isLoopback,
    Ipv4Addr.isPrivate, Ipv4Addr.isLinkLocal, Ipv4Addr.isMulticast, Ipv4Addr.isBroadcast,
    reservedOctets, List.any_cons, List.any_nil, Bool.or_eq_true, Bool.and_eq_true, beq_iff_eq,
    decide_eq_true_eq, Bool.false_eq_true, or_false, and_true, not_or, and_assoc]
  simp only [refusedV4, List.forall_mem_cons, List.not_mem_nil, false_implies, implies_true,
    and_true, a.inBlock_three, a.inBlock_first _ (show 8 ≤ 8 by decide),
    a.inBlock_first _ (show 4 ≤ 8 by decide),
    a.inBlock_second _ (show 8 ≤ 10 by decide) (show 10 ≤ 16 by decide),
    a.inBlock_second _ (show 8 ≤ 12 by decide) (show 12 ≤ 16 by decide),
    a.inBlock_second _ (show 8 ≤ 15 by decide) (show 15 ≤ 16 by decide),
    a.inBlock_second _ (show 8 ≤ 16 by decide) (show 16 ≤ 16 by decide), Nat.reduceSub,
    inBlock_full, hshared, hprivate, hbench, hmulticast, hhigh]
  constructor
  · rintro ⟨-, loop, ten, private172, private192, link, multicast, -, shared, zero, high, r1, r2,
      r3, r4, bench⟩
    exact ⟨zero, ten, shared, loop, link, private172, r1, r2, private192, bench, r3, r4, multicast,
      high⟩
  · rintro ⟨zero, ten, shared, loop, link, private172, r1, r2, private192, bench, r3, r4,
      multicast, high⟩
    refine ⟨fun h => zero h.1, loop, ten, private172, private192, link, multicast, fun h => ?_,
      shared, zero, high, r1, r2, r3, r4, bench⟩
    exact high (h.1 ▸ by decide)

/-! ## IPv6 -/

/-- The blocks no address of which passes. -/
def refusedV6 : List (Ipv6Addr × ℕ) :=
  [({ s0 := 0, s1 := 0, s2 := 0, s3 := 0, s4 := 0, s5 := 0, s6 := 0, s7 := 0 }, 128),
    ({ s0 := 0, s1 := 0, s2 := 0, s3 := 0, s4 := 0, s5 := 0, s6 := 0, s7 := 1 }, 128),
    ({ s0 := 0xff00, s1 := 0, s2 := 0, s3 := 0, s4 := 0, s5 := 0, s6 := 0, s7 := 0 }, 8),
    ({ s0 := 0xfc00, s1 := 0, s2 := 0, s3 := 0, s4 := 0, s5 := 0, s6 := 0, s7 := 0 }, 7),
    ({ s0 := 0xfe80, s1 := 0, s2 := 0, s3 := 0, s4 := 0, s5 := 0, s6 := 0, s7 := 0 }, 10),
    ({ s0 := 0x2001, s1 := 0, s2 := 0, s3 := 0, s4 := 0, s5 := 0, s6 := 0, s7 := 0 }, 32),
    ({ s0 := 0x2001, s1 := 0x0db8, s2 := 0, s3 := 0, s4 := 0, s5 := 0, s6 := 0, s7 := 0 }, 32)]

namespace Ipv6Addr

/-- What follows the first two segments. -/
def tail (a : Ipv6Addr) : ℕ :=
  ((((a.s2 * 2 ^ 16 + a.s3) * 2 ^ 16 + a.s4) * 2 ^ 16 + a.s5) * 2 ^ 16 + a.s6) * 2 ^ 16 + a.s7

theorem tail_lt (a : Ipv6Addr) : a.tail < 2 ^ 96 := by
  have hlt := a.lt
  unfold tail
  omega

theorem toNat_eq (a : Ipv6Addr) : a.toNat = (a.s0 * 2 ^ 16 + a.s1) * 2 ^ 96 + a.tail := by
  unfold toNat tail
  omega

/-- A block that ends in the first segment. -/
theorem inBlock_first (a b : Ipv6Addr) {len : ℕ} (h : len ≤ 16) :
    InBlock 128 b.toNat len a.toNat ↔ InBlock 16 b.s0 len a.s0 := by
  rw [a.toNat_eq, b.toNat_eq]
  exact (@inBlock_leading 32 96 _ _ _ _ _ b.tail_lt a.tail_lt (by omega)).trans
    (@inBlock_leading 16 16 _ _ _ _ _ b.lt.2.1 a.lt.2.1 h)

/-- A block of the first two segments. -/
theorem inBlock_two (a b : Ipv6Addr) :
    InBlock 128 b.toNat 32 a.toNat ↔ a.s0 = b.s0 ∧ a.s1 = b.s1 := by
  have ha := a.lt
  have hb := b.lt
  rw [a.toNat_eq, b.toNat_eq]
  refine (@inBlock_leading 32 96 _ _ _ _ _ b.tail_lt a.tail_lt le_rfl).trans (inBlock_full.trans ?_)
  omega

/-- The segments of an address are the digits of its number. -/
theorem segments_of_toNat {a b : Ipv6Addr} (h : a.toNat = b.toNat) :
    a.s0 = b.s0 ∧ a.s1 = b.s1 ∧ a.s2 = b.s2 ∧ a.s3 = b.s3 ∧ a.s4 = b.s4 ∧ a.s5 = b.s5 ∧
      a.s6 = b.s6 ∧ a.s7 = b.s7 := by
  have ha := a.lt
  have hb := b.lt
  unfold toNat at h
  omega

end Ipv6Addr

/-- Two segments that hold the halves of an address hold it. -/
theorem Ipv4Addr.ofSegments_eq (a : Ipv4Addr) :
    ofSegments (a.o0 * 2 ^ 8 + a.o1) (a.o2 * 2 ^ 8 + a.o3) = a := by
  have hlt := a.lt
  obtain ⟨o0, o1, o2, o3, lt⟩ := a
  simp only [ofSegments, Ipv4Addr.mk.injEq]
  omega

section Forms

variable {a : Ipv6Addr} {v4 : Ipv4Addr}

/-- An address that carries an IPv4 address and is judged by it. -/
theorem checkV6_of_carried (hun : a.isUnspecified = false) (hloop : a.isLoopback = false)
    (hmulti : a.isMulticast = false)
    (h : a.toIpv4Mapped = some v4 ∨ a.toIpv4Mapped = none ∧ embeddedV4 a = some v4) :
    checkV6 a = checkV4 v4 := by
  simp only [checkV6, hun, hloop, hmulti, Bool.false_eq_true, if_false]
  rcases h with hmapped | ⟨hmapped, hembedded⟩
  · rw [hmapped]
  · rw [hmapped, hembedded]

/-- An address that carries none is judged by its segments. -/
theorem checkV6_eq_ok_of_plain (hmapped : a.toIpv4Mapped = none) (hembedded : embeddedV4 a = none)
    (h : checkV6 a = .ok ()) :
    a.s0 / 2 ^ 8 ≠ 0xff ∧ ¬(a.s0 = 0x2001 ∧ a.s1 = 0) ∧ a.s0 / 2 ^ 9 ≠ 0x7e ∧
      a.s0 / 2 ^ 6 ≠ 0x3fa ∧ ¬(a.s0 = 0x2001 ∧ a.s1 = 0x0db8) := by
  simp only [checkV6, hmapped, hembedded, ite_error_eq_ok, Ipv6Addr.isMulticast, beq_iff_eq,
    Bool.and_eq_true] at h
  obtain ⟨-, -, hmulti, hteredo, hlocal, hlink, hdoc, -⟩ := h
  refine ⟨fun hin => hmulti ?_, hteredo, fun hin => hlocal ?_, fun hin => hlink ?_, hdoc⟩
  · exact (@and_leading_eq_iff _ _ 16 8 a.lt.1 (by decide)).mpr hin
  · exact (@and_leading_eq_iff _ _ 16 9 a.lt.1 (by decide)).mpr hin
  · exact (@and_leading_eq_iff _ _ 16 6 a.lt.1 (by decide)).mpr hin

/-- An address that starts with none of their segments carries none. -/
theorem not_carried (h0 : a.s0 ≠ 0) (h64 : a.s0 ≠ 0x64) (h2002 : a.s0 ≠ 0x2002) :
    a.toIpv4Mapped = none ∧ embeddedV4 a = none := by
  simp [Ipv6Addr.toIpv4Mapped, embeddedV4, h0, h64, h2002]

end Forms

section Embeddings

variable {a : Ipv4Addr} {addr : Ipv6Addr}

/-- The segments of an address whose last 32 bits are an IPv4 address. -/
theorem segments_of_behind {s0 s1 s5 : ℕ} (hs : s0 < 65536 ∧ s1 < 65536 ∧ s5 < 65536)
    (h : addr.toNat = s0 * 2 ^ 112 + s1 * 2 ^ 96 + s5 * 2 ^ 32 + a.toNat) :
    addr.s0 = s0 ∧ addr.s1 = s1 ∧ addr.s2 = 0 ∧ addr.s3 = 0 ∧ addr.s4 = 0 ∧ addr.s5 = s5 ∧
      Ipv4Addr.ofSegments addr.s6 addr.s7 = a := by
  have hlt := a.lt
  have hword : addr.toNat = Ipv6Addr.toNat
      { s0, s1, s2 := 0, s3 := 0, s4 := 0, s5, s6 := a.o0 * 2 ^ 8 + a.o1,
        s7 := a.o2 * 2 ^ 8 + a.o3, lt := by omega } := by
    rw [h]
    simp only [Ipv6Addr.toNat, Ipv4Addr.toNat]
    omega
  obtain ⟨h0, h1, h2, h3, h4, h5, h6, h7⟩ := Ipv6Addr.segments_of_toNat hword
  refine ⟨h0, h1, h2, h3, h4, h5, ?_⟩
  rw [h6, h7]
  exact a.ofSegments_eq

/-- `::ffff:a` -/
theorem checkV6_mapped (h : addr.toNat = 0xffff * 2 ^ 32 + a.toNat) :
    checkV6 addr = checkV4 a := by
  obtain ⟨h0, h1, h2, h3, h4, h5, hv4⟩ :=
    @segments_of_behind a addr 0 0 0xffff (by decide) (by omega)
  refine checkV6_of_carried ?_ ?_ ?_ (.inl ?_)
  · simp [Ipv6Addr.isUnspecified, h5]
  · simp [Ipv6Addr.isLoopback, h5]
  · simp [Ipv6Addr.isMulticast, h0]
  · simp [Ipv6Addr.toIpv4Mapped, h0, h1, h2, h3, h4, h5, hv4]

/-- `::a`, of which `::` and `::1` are refused as what they are. -/
theorem checkV6_compatible (h : addr.toNat = a.toNat) :
    checkV6 addr = .ok () ↔ checkV4 a = .ok () := by
  obtain ⟨h0, h1, h2, h3, h4, h5, hv4⟩ := @segments_of_behind a addr 0 0 0 (by decide) (by omega)
  have hzero : addr.s6 = 0 → checkV4 a ≠ .ok () := by
    intro h6
    rw [← hv4, h6, Ne, checkV4_eq_ok_iff]
    intro hall
    refine hall ({ o0 := 0, o1 := 0, o2 := 0, o3 := 0 }, 8) (by simp [refusedV4]) ?_
    rw [Ipv4Addr.inBlock_first _ _ (by decide), inBlock_full]
    rfl
  cases hun : addr.isUnspecified with
  | true =>
      have h6 : addr.s6 = 0 := by
        simp only [Ipv6Addr.isUnspecified, Bool.and_eq_true, beq_iff_eq] at hun
        exact hun.1.2
      simp [checkV6, hun, hzero h6]
  | false =>
      cases hloop : addr.isLoopback with
      | true =>
          have h6 : addr.s6 = 0 := by
            simp only [Ipv6Addr.isLoopback, Bool.and_eq_true, beq_iff_eq] at hloop
            exact hloop.1.2
          simp [checkV6, hun, hloop, hzero h6]
      | false =>
          rw [checkV6_of_carried hun hloop (by simp [Ipv6Addr.isMulticast, h0]) (.inr ⟨?_, ?_⟩)]
          · simp [Ipv6Addr.toIpv4Mapped, h5]
          · simp [embeddedV4, h0, h1, h2, h3, h4, h5, hv4]

/-- `64:ff9b::a` -/
theorem checkV6_nat64 (h : addr.toNat = 0x64 * 2 ^ 112 + 0xff9b * 2 ^ 96 + a.toNat) :
    checkV6 addr = checkV4 a := by
  obtain ⟨h0, h1, h2, h3, h4, h5, hv4⟩ :=
    @segments_of_behind a addr 0x64 0xff9b 0 (by decide) (by omega)
  refine checkV6_of_carried ?_ ?_ ?_ (.inr ⟨?_, ?_⟩)
  · simp [Ipv6Addr.isUnspecified, h0]
  · simp [Ipv6Addr.isLoopback, h0]
  · simp [Ipv6Addr.isMulticast, h0]
  · simp [Ipv6Addr.toIpv4Mapped, h0]
  · simp [embeddedV4, h0, h1, hv4]

/-- `2002:a` and anything behind it. -/
theorem checkV6_sixToFour {rest : ℕ} (hrest : rest < 2 ^ 80)
    (h : addr.toNat = 0x2002 * 2 ^ 112 + a.toNat * 2 ^ 80 + rest) :
    checkV6 addr = checkV4 a := by
  have hseg : addr.s0 = 0x2002 ∧ addr.s1 = a.o0 * 2 ^ 8 + a.o1 ∧
      addr.s2 = a.o2 * 2 ^ 8 + a.o3 := by
    have hlt := a.lt
    have hlt6 := addr.lt
    simp only [Ipv6Addr.toNat, Ipv4Addr.toNat] at h
    omega
  obtain ⟨h0, h1, h2⟩ := hseg
  refine checkV6_of_carried ?_ ?_ ?_ (.inr ⟨?_, ?_⟩)
  · simp [Ipv6Addr.isUnspecified, h0]
  · simp [Ipv6Addr.isLoopback, h0]
  · simp [Ipv6Addr.isMulticast, h0]
  · simp [Ipv6Addr.toIpv4Mapped, h0]
  · rw [embeddedV4, if_neg (by simp [h0]), if_neg (by simp [h0]), if_pos (by simp [h0]), h1, h2,
      a.ofSegments_eq]

end Embeddings

/-- No address of the refused blocks passes. -/
theorem checkV6_ne_ok {addr : Ipv6Addr} {net : Ipv6Addr × ℕ} (hnet : net ∈ refusedV6)
    (hin : InBlock 128 net.1.toNat net.2 addr.toNat) : checkV6 addr ≠ .ok () := by
  have hlt := addr.lt.1
  have hplain : ∀ {head low : ℕ}, addr.s0 / 2 ^ low = head → head ≠ 0 / 2 ^ low →
      head ≠ 0x64 / 2 ^ low → head ≠ 0x2002 / 2 ^ low →
      addr.toIpv4Mapped = none ∧ embeddedV4 addr = none := by
    rintro head low rfl h0 h64 h2002
    exact not_carried (fun h => h0 (h ▸ rfl)) (fun h => h64 (h ▸ rfl)) (fun h => h2002 (h ▸ rfl))
  intro hok
  simp only [refusedV6, List.mem_cons, List.not_mem_nil, or_false] at hnet
  rcases hnet with rfl | rfl | rfl | rfl | rfl | rfl | rfl
  · obtain ⟨h0, h1, h2, h3, h4, h5, h6, h7⟩ := Ipv6Addr.segments_of_toNat (inBlock_full.mp hin)
    simp [checkV6, Ipv6Addr.isUnspecified, h0, h1, h2, h3, h4, h5, h6, h7] at hok
  · obtain ⟨h0, h1, h2, h3, h4, h5, h6, h7⟩ := Ipv6Addr.segments_of_toNat (inBlock_full.mp hin)
    simp [checkV6, Ipv6Addr.isUnspecified, Ipv6Addr.isLoopback, h0, h1, h2, h3, h4, h5, h6,
      h7] at hok
  · have hhead : addr.s0 / 2 ^ 8 = 0xff := (addr.inBlock_first _ (by decide)).mp hin
    obtain ⟨hmapped, hembedded⟩ := hplain hhead (by decide) (by decide) (by decide)
    exact (checkV6_eq_ok_of_plain hmapped hembedded hok).1 hhead
  · have hhead : addr.s0 / 2 ^ 9 = 0x7e := (addr.inBlock_first _ (by decide)).mp hin
    obtain ⟨hmapped, hembedded⟩ := hplain hhead (by decide) (by decide) (by decide)
    exact (checkV6_eq_ok_of_plain hmapped hembedded hok).2.2.1 hhead
  · have hhead : addr.s0 / 2 ^ 6 = 0x3fa := (addr.inBlock_first _ (by decide)).mp hin
    obtain ⟨hmapped, hembedded⟩ := hplain hhead (by decide) (by decide) (by decide)
    exact (checkV6_eq_ok_of_plain hmapped hembedded hok).2.2.2.1 hhead
  · obtain ⟨h0, h1⟩ := (addr.inBlock_two _).mp hin
    obtain ⟨hmapped, hembedded⟩ := @not_carried addr (by simp [h0]) (by simp [h0]) (by simp [h0])
    exact (checkV6_eq_ok_of_plain hmapped hembedded hok).2.1 ⟨h0, h1⟩
  · obtain ⟨h0, h1⟩ := (addr.inBlock_two _).mp hin
    obtain ⟨hmapped, hembedded⟩ := @not_carried addr (by simp [h0]) (by simp [h0]) (by simp [h0])
    exact (checkV6_eq_ok_of_plain hmapped hembedded hok).2.2.2.2 ⟨h0, h1⟩

/-- **The guard judges every spelling of an IPv4 address alike.**  An IPv4 address passes iff it
lies outside the refused blocks; `::ffff:a`, `::a`, `64:ff9b::a` and `2002:a` with anything
behind it pass iff `a` does; and no address of the refused blocks of IPv6 passes. -/
theorem address_guard_judges_alike :
    (∀ a, checkAddr (.v4 a) false = .ok () ↔
      ∀ net ∈ refusedV4, ¬InBlock 32 net.1.toNat net.2 a.toNat) ∧
    (∀ (a : Ipv4Addr) (addr : Ipv6Addr) (rest : ℕ), rest < 2 ^ 80 →
      addr.toNat = 0xffff * 2 ^ 32 + a.toNat ∨ addr.toNat = a.toNat ∨
        addr.toNat = 0x64 * 2 ^ 112 + 0xff9b * 2 ^ 96 + a.toNat ∨
        addr.toNat = 0x2002 * 2 ^ 112 + a.toNat * 2 ^ 80 + rest →
      (checkAddr (.v6 addr) false = .ok () ↔ checkAddr (.v4 a) false = .ok ())) ∧
    ∀ addr, ∀ net ∈ refusedV6, InBlock 128 net.1.toNat net.2 addr.toNat →
      checkAddr (.v6 addr) false ≠ .ok () := by
  refine ⟨checkV4_eq_ok_iff, fun a addr rest hrest h => ?_, fun addr net => checkV6_ne_ok⟩
  show checkV6 addr = .ok () ↔ checkV4 a = .ok ()
  rcases h with h | h | h | h
  · rw [checkV6_mapped h]
  · exact checkV6_compatible h
  · rw [checkV6_nat64 h]
  · rw [checkV6_sixToFour hrest h]

/-- `10.0.0.1` behind `2002` is private. -/
example :
    checkAddr (.v6 { s0 := 0x2002, s1 := 0x0a00, s2 := 1, s3 := 0, s4 := 0, s5 := 0, s6 := 0
                     s7 := 9 }) false = .error .privateAddress := by
  decide

end Cachic
