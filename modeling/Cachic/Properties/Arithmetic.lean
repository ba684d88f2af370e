import Cachic.Orchestrator.Process
import Cachic.Orchestrator.Readahead

/-!
# The arithmetic of a range, for every length

Lengths are 64-bit words and slice indices 32-bit words, so an object of more than
`2 ^ 32` slices has bytes without an index.  What the program does about that differs
from place to place: a plan saturates, the slice to probe with is truncated, the number
of slices in a plan wraps.  Up to the largest addressable length each of these computes
the number it stands for, with one exception: a plan of all `2 ^ 32` slices, whose
count does not fit.
-/

namespace Cachic

open Range Tiling

/-- The spans of the object that the payload windows of a plan stand for. -/
def payloadSpans (sliceSize : ℕ) (wanted : ByteRange) : List (ℕ × ℕ) :=
  (Range.plan wanted sliceSize).indices.map fun i =>
    (i * sliceSize + (payloadWindow i sliceSize wanted).1,
      i * sliceSize + (payloadWindow i sliceSize wanted).2)

/-- Each operation on the way from a range to its payload windows stays in its width and
computes the number it stands for.  Every subtraction is between numbers in that
order, and every sum and every index fits. -/
structure InWidth (cfg : Config) (spec : Option RangeSpec) (totalLen : ℕ) (wanted : ByteRange) :
    Prop where
  len : wanted.start ≤ wanted.stop ∧ wanted.stop - wanted.start + 1 < 2 ^ 64 ∧
    wanted.len = wanted.stop - wanted.start + 1
  plan : wanted.stop / cfg.sliceSize < 2 ^ 32 ∧
    (Range.plan wanted cfg.sliceSize).first = wanted.start / cfg.sliceSize ∧
    (Range.plan wanted cfg.sliceSize).last = wanted.stop / cfg.sliceSize
  count : wanted.stop / cfg.sliceSize - wanted.start / cfg.sliceSize + 1 < 2 ^ 32 ∧
    (Range.plan wanted cfg.sliceSize).count =
      wanted.stop / cfg.sliceSize - wanted.start / cfg.sliceSize + 1
  extent : ∀ i ∈ (Range.plan wanted cfg.sliceSize).indices,
    i * cfg.sliceSize + cfg.sliceSize < 2 ^ 64 ∧ i * cfg.sliceSize < totalLen ∧
    sliceExtent i cfg.sliceSize totalLen =
      { start := i * cfg.sliceSize, stop := min ((i + 1) * cfg.sliceSize) totalLen - 1 }
  window : ∀ i ∈ (Range.plan wanted cfg.sliceSize).indices,
    i * cfg.sliceSize ≤ wanted.stop ∧ wanted.stop + 1 - i * cfg.sliceSize < 2 ^ 64 ∧
    payloadWindow i cfg.sliceSize wanted =
      (wanted.start - i * cfg.sliceSize,
        min (wanted.stop + 1 - i * cfg.sliceSize) cfg.sliceSize)
  probeIndex : ∀ start, (spec = some (.from start) ∨ ∃ stop, spec = some (.fromTo start stop)) →
    start / cfg.sliceSize < 2 ^ 32 ∧ probeIndexOf cfg spec = start / cfg.sliceSize
  lastSlice : (totalLen - 1) / cfg.sliceSize < 2 ^ 32 ∧
    lastSliceOf cfg totalLen = (totalLen - 1) / cfg.sliceSize

section Ranges

variable {cfg : Config} {spec : Option RangeSpec} {totalLen : ℕ} {wanted : ByteRange}

/-- A byte of an addressable object lies in a slice with an index. -/
theorem index_lt_of_addressable {byte : ℕ} (haddr : totalLen ≤ maxAddressableLen cfg.sliceSize)
    (hbyte : byte < totalLen) : byte / cfg.sliceSize < 2 ^ 32 := by
  rw [Nat.div_lt_iff_lt_mul cfg.sliceSize_pos]
  exact lt_of_lt_of_le hbyte haddr

/-- A range that is given by its first byte begins at that byte. -/
theorem wanted_start {start : ℕ}
    (hspec : spec = some (.from start) ∨ ∃ stop, spec = some (.fromTo start stop))
    (hwanted : wantedRange spec totalLen = .ok wanted) : wanted.start = start := by
  obtain rfl | ⟨stop, rfl⟩ := hspec
  all_goals
    simp only [wantedRange] at hwanted
    split at hwanted
    · next hres =>
        cases hwanted
        rw [resolve_eq_span hres]
        rfl
    · cases hwanted

/-- The slice to probe with is the one that holds the first byte. -/
theorem probeIndexOf_eq {start : ℕ}
    (hspec : spec = some (.from start) ∨ ∃ stop, spec = some (.fromTo start stop))
    (hindex : start / cfg.sliceSize < 2 ^ 32) :
    probeIndexOf cfg spec = start / cfg.sliceSize := by
  obtain rfl | ⟨stop, rfl⟩ := hspec
  all_goals exact Nat.mod_eq_of_lt hindex

/-- The slices of a plan begin at or before the last byte. -/
theorem offset_le_of_mem_indices {s i : ℕ} (hle : wanted.start ≤ wanted.stop)
    (hi : i ∈ (Range.plan wanted s).indices) : i * s ≤ wanted.stop := by
  have hle' : wanted.start / max s 1 ≤ wanted.stop / max s 1 := Nat.div_le_div_right hle
  simp only [SlicePlan.indices, Range.plan, List.mem_range'_1] at hi
  calc i * s ≤ wanted.stop / max s 1 * max s 1 := Nat.mul_le_mul (by omega) (le_max_left s 1)
    _ ≤ wanted.stop := Nat.div_mul_le_self _ _

/-- The payload windows of a plan whose last byte has an index are spans that adjoin. -/
theorem adjoins_payloadSpans (hle : wanted.start ≤ wanted.stop)
    (hindex : wanted.stop / cfg.sliceSize < 2 ^ 32) (hword : wanted.stop + 1 < 2 ^ 64) :
    Adjoins wanted.start (wanted.stop + 1) (payloadSpans cfg.sliceSize wanted) := by
  have htiles := @adjoins_tiles cfg.sliceSize wanted.start (wanted.stop + 1) cfg.sliceSize_pos
    (Nat.lt_succ_of_le hle)
  have hspans : payloadSpans cfg.sliceSize wanted =
      (Range.plan wanted cfg.sliceSize).indices.map fun i =>
        (i * cfg.sliceSize + (wanted.start - i * cfg.sliceSize),
          i * cfg.sliceSize + min (wanted.stop + 1 - i * cfg.sliceSize) cfg.sliceSize) := by
    apply List.map_congr_left
    intro i hi
    rw [payloadWindow_eq (offset_le_of_mem_indices hle hi) hword]
  rw [hspans, indices_plan cfg.sliceSize_pos hle hindex]
  exact htiles

/-- The windows are together as long as the range. -/
theorem sum_payloadWindows (hle : wanted.start ≤ wanted.stop)
    (hindex : wanted.stop / cfg.sliceSize < 2 ^ 32) (hword : wanted.stop + 1 < 2 ^ 64) :
    ((Range.plan wanted cfg.sliceSize).indices.map fun i =>
      (payloadWindow i cfg.sliceSize wanted).2 - (payloadWindow i cfg.sliceSize wanted).1).sum =
      wanted.len := by
  have hsum := (adjoins_payloadSpans hle hindex hword).sum_lengths
  rw [payloadSpans, List.map_map] at hsum
  rw [ByteRange.len_eq hle hword, ← hsum]
  congr 1
  apply List.map_congr_left
  intro i _
  simp only [Function.comp_apply]
  omega

/-- A plan that leaves the first or the last index out has fewer than `2 ^ 32` slices. -/
theorem slices_lt (hindex : wanted.stop / cfg.sliceSize < 2 ^ 32)
    (hsome : cfg.sliceSize ≤ wanted.start ∨ wanted.stop < (2 ^ 32 - 1) * cfg.sliceSize) :
    wanted.stop / cfg.sliceSize - wanted.start / cfg.sliceSize + 1 < 2 ^ 32 := by
  rcases hsome with hstart | hstop
  · have hpos : 0 < wanted.start / cfg.sliceSize := Nat.div_pos hstart cfg.sliceSize_pos
    omega
  · have hlast := (Nat.div_lt_iff_lt_mul cfg.sliceSize_pos).mpr hstop
    have hsub := Nat.sub_le (wanted.stop / cfg.sliceSize) (wanted.start / cfg.sliceSize)
    omega

/-- Nothing beyond that stays in its width: the last slice has no index in a longer
object, and the count of all `2 ^ 32` slices does not fit. -/
theorem InWidth.addressable (h : InWidth cfg spec totalLen wanted) (hpos : 1 ≤ totalLen) :
    totalLen ≤ maxAddressableLen cfg.sliceSize ∧
      (cfg.sliceSize ≤ wanted.start ∨ wanted.stop < (2 ^ 32 - 1) * cfg.sliceSize) := by
  have hs := cfg.sliceSize_pos
  constructor
  · have hlast := (Nat.div_lt_iff_lt_mul hs).mp h.lastSlice.1
    simp only [maxAddressableLen]
    omega
  · by_contra hall
    push Not at hall
    have hfirst : wanted.start / cfg.sliceSize = 0 := Nat.div_eq_of_lt hall.1
    have hlast : 2 ^ 32 - 1 ≤ wanted.stop / cfg.sliceSize :=
      (Nat.le_div_iff_mul_le hs).mpr hall.2
    have hcount := h.count.1
    omega

end Ranges

/-- **The arithmetic of a range stays in its width**, for every length up to the largest
addressable one and every range that does not take all `2 ^ 32` slices.  The payload
windows are then not empty, each begins where the one before it ended, and together
they are as long as the range. -/
theorem arithmetic_in_width (cfg : Config) (spec : Option RangeSpec) (totalLen : ℕ)
    (wanted : ByteRange) (hspec : ∀ s, spec = some s → s.Ordered) (hpos : 1 ≤ totalLen)
    (hword : totalLen ≤ 2 ^ 64 - 1) (hwanted : wantedRange spec totalLen = .ok wanted)
    (haddr : totalLen ≤ maxAddressableLen cfg.sliceSize)
    (hsome : cfg.sliceSize ≤ wanted.start ∨ wanted.stop < (2 ^ 32 - 1) * cfg.sliceSize) :
    InWidth cfg spec totalLen wanted ∧
      Adjoins wanted.start (wanted.stop + 1) (payloadSpans cfg.sliceSize wanted) ∧
      ((Range.plan wanted cfg.sliceSize).indices.map fun i =>
        (payloadWindow i cfg.sliceSize wanted).2 -
          (payloadWindow i cfg.sliceSize wanted).1).sum = wanted.len := by
  obtain ⟨hle, hlt⟩ := wantedRange_bounds hspec hwanted (by omega)
  have hs := cfg.sliceSize_pos
  have hstop : wanted.stop + 1 < 2 ^ 64 := by omega
  have hindex := index_lt_of_addressable haddr hlt
  have hslices := slices_lt hindex hsome
  have hlast : (totalLen - 1) / cfg.sliceSize < 2 ^ 32 :=
    index_lt_of_addressable haddr (by omega)
  refine ⟨?_, adjoins_payloadSpans hle hindex hstop, sum_payloadWindows hle hindex hstop⟩
  constructor
  case len =>
    refine ⟨hle, by omega, ?_⟩
    rw [ByteRange.len_eq hle hstop]
    omega
  case plan =>
    rw [plan_eq hs hle hindex]
    exact ⟨hindex, rfl, rfl⟩
  case count => exact ⟨hslices, count_plan hs hle hindex hslices⟩
  case extent =>
    intro i hi
    have hoffset := cfg.sliceSize_valid.offset_lt (lt_of_mem_indices hi)
    have hinside := lt_of_le_of_lt (offset_le_of_mem_indices hle hi) hlt
    exact ⟨hoffset, hinside, sliceExtent_eq hs hoffset hinside⟩
  case window =>
    intro i hi
    have hoffset := offset_le_of_mem_indices hle hi
    exact ⟨hoffset, by omega, payloadWindow_eq hoffset hstop⟩
  case probeIndex =>
    intro start hstart
    have hfirst : start / cfg.sliceSize < 2 ^ 32 := by
      rw [← wanted_start hstart hwanted]
      exact index_lt_of_addressable haddr (by omega)
    exact ⟨hfirst, probeIndexOf_eq hstart hfirst⟩
  case lastSlice => exact ⟨hlast, min_eq_left (by omega)⟩

namespace Scenario

/-- The last two bytes of the first slice and the first three of the second. -/
theorem arithmetic_in_width_two_slices :
    InWidth config (some (.fromTo 4094 4098)) 10000 { start := 4094, stop := 4098 } ∧
      Adjoins 4094 4099 (payloadSpans config.sliceSize { start := 4094, stop := 4098 }) := by
  have h := arithmetic_in_width config (some (.fromTo 4094 4098)) 10000
    { start := 4094, stop := 4098 } (fun s hs => by cases hs; simp [RangeSpec.Ordered])
    (by decide) (by decide) rfl (by decide) (Or.inr (by decide))
  exact ⟨h.1, h.2.1⟩

/-- At 4 KiB slices.  An object of exactly the largest addressable length, asked for as a
whole, takes `2 ^ 32` slices, and their count wraps to zero.  In an object longer than
that, the bytes past the addressable ones saturate to the last index, whose window of
them is empty, and the slice to probe with is truncated to slice 0. -/
theorem arithmetic_out_of_width :
    (wantedRange none (2 ^ 44) = .ok { start := 0, stop := 2 ^ 44 - 1 } ∧
      2 ^ 44 = maxAddressableLen config.sliceSize ∧
      (Range.plan { start := 0, stop := 2 ^ 44 - 1 } config.sliceSize).count = 0) ∧
    (wantedRange (some (.from (2 ^ 44))) (2 ^ 44 + 10) =
        .ok { start := 2 ^ 44, stop := 2 ^ 44 + 9 } ∧
      (Range.plan { start := 2 ^ 44, stop := 2 ^ 44 + 9 } config.sliceSize).indices =
        [2 ^ 32 - 1] ∧
      payloadWindow (2 ^ 32 - 1) config.sliceSize { start := 2 ^ 44, stop := 2 ^ 44 + 9 } =
        (4096, 4096) ∧
      ByteRange.len { start := 2 ^ 44, stop := 2 ^ 44 + 9 } = 10 ∧
      probeIndexOf config (some (.from (2 ^ 44))) = 0 ∧
      lastSliceOf config (2 ^ 44 + 10) = 2 ^ 32 - 1) := by
  refine ⟨⟨rfl, rfl, ?_⟩, rfl, ?_, ?_, ?_, ?_, ?_⟩ <;> decide

end Scenario

end Cachic
