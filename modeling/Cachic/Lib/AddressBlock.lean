import Mathlib.Tactic

/-!
# Blocks of addresses

A block of addresses of `width` bits is given by one of them and a length: it holds the
addresses that agree with it in their leading `len` bits.  Programs test for a block word by
word, by comparing some and masking one; `inBlock_leading`, `inBlock_low` and
`and_leading_eq_iff` say what these tests decide.
-/

namespace AddressBlock

/-- The addresses that agree with `base` in their leading `len` bits. -/
def InBlock (width base len addr : ℕ) : Prop :=
  addr / 2 ^ (width - len) = base / 2 ^ (width - len)

instance (width base len addr : ℕ) : Decidable (InBlock width base len addr) :=
  inferInstanceAs (Decidable (_ = _))

theorem inBlock_full {width base addr : ℕ} : InBlock width base width addr ↔ addr = base := by
  rw [InBlock, Nat.sub_self, pow_zero, Nat.div_one, Nat.div_one]

section Words

variable {width w base low addr low' len : ℕ}

theorem div_of_low (hlow : low < 2 ^ w) : (addr * 2 ^ w + low) / 2 ^ w = addr := by
  rw [Nat.mul_comm, Nat.mul_add_div (Nat.two_pow_pos w), Nat.div_eq_of_lt hlow, Nat.add_zero]

/-- A block that ends within the leading bits does not depend on the low word. -/
theorem inBlock_leading (hlow : low < 2 ^ w) (hlow' : low' < 2 ^ w) (hlen : len ≤ width) :
    InBlock (width + w) (base * 2 ^ w + low) len (addr * 2 ^ w + low') ↔
      InBlock width base len addr := by
  have hsplit : 2 ^ (width + w - len) = 2 ^ w * 2 ^ (width - len) := by
    rw [← pow_add]
    congr 1
    omega
  rw [InBlock, InBlock, hsplit, ← Nat.div_div_eq_div_mul, ← Nat.div_div_eq_div_mul,
    div_of_low hlow, div_of_low hlow']

/-- A block that ends within the low word fixes everything before it. -/
theorem inBlock_low (hlow : low < 2 ^ w) (hlow' : low' < 2 ^ w) (hlen : width ≤ len)
    (hfit : len ≤ width + w) :
    InBlock (width + w) (base * 2 ^ w + low) len (addr * 2 ^ w + low') ↔
      addr = base ∧ InBlock w low (len - width) low' := by
  have hrest : w - (len - width) = width + w - len := by omega
  have hpow : 2 ^ w = 2 ^ (len - width) * 2 ^ (width + w - len) := by
    rw [← pow_add]
    congr 1
    omega
  have hdiv : ∀ head tail : ℕ, (head * 2 ^ w + tail) / 2 ^ (width + w - len) =
      head * 2 ^ (len - width) + tail / 2 ^ (width + w - len) := by
    intro head tail
    rw [hpow, ← Nat.mul_assoc, Nat.mul_comm _ (2 ^ (width + w - len)),
      Nat.mul_add_div (Nat.two_pow_pos _)]
  have hbound : ∀ {tail : ℕ}, tail < 2 ^ w → tail / 2 ^ (width + w - len) < 2 ^ (len - width) := by
    intro tail htail
    exact Nat.div_lt_of_lt_mul (by rw [Nat.mul_comm, ← hpow]; exact htail)
  rw [InBlock, InBlock, hrest, hdiv, hdiv]
  constructor
  · intro h
    have hhead := congrArg (· / 2 ^ (len - width)) h
    simp only [div_of_low (hbound hlow), div_of_low (hbound hlow')] at hhead
    rw [hhead] at h
    exact ⟨hhead, Nat.add_left_cancel h⟩
  · rintro ⟨rfl, htail⟩
    rw [htail]

end Words

/-- The mask of the leading bits of a word keeps just these. -/
theorem and_leading (x : ℕ) {width low : ℕ} (hx : x < 2 ^ width) (hlow : low ≤ width) :
    x &&& ((2 ^ (width - low) - 1) <<< low) = (x >>> low) <<< low := by
  apply Nat.eq_of_testBit_eq
  intro i
  simp only [Nat.testBit_and, Nat.testBit_shiftLeft, Nat.testBit_two_pow_sub_one,
    Nat.testBit_shiftRight]
  by_cases hi : low ≤ i
  · have hback : low + (i - low) = i := by omega
    by_cases hin : i < width
    · have hrange : i - low < width - low := by omega
      simp [hi, hback, hrange]
    · have hout : x.testBit i = false :=
        Nat.testBit_lt_two_pow (lt_of_lt_of_le hx (Nat.pow_le_pow_right (by decide) (by omega)))
      simp [hi, hback, hout]
  · simp [hi]

/-- Comparing a masked word with a head compares the leading bits with it. -/
theorem and_leading_eq_iff {x head width low : ℕ} (hx : x < 2 ^ width) (hlow : low ≤ width) :
    x &&& ((2 ^ (width - low) - 1) <<< low) = head <<< low ↔ x / 2 ^ low = head := by
  rw [and_leading x hx hlow, Nat.shiftLeft_eq, Nat.shiftLeft_eq, Nat.shiftRight_eq_div_pow]
  exact Nat.mul_left_inj (Nat.two_pow_pos low).ne'

end AddressBlock
