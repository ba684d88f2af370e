import Cachic.Lib.Text
import Cachic.Lib.Tiling

/-!
# Range parsing and slice-plan arithmetic

The pure half of a ranged request: read the `Range` header, resolve it against
the object's length, find the slices that cover it, and say which bytes of each
slice belong to the answer.

Lengths and positions are 64-bit words and slice indices 32-bit words.  They are
natural numbers here, and every operation that can leave its width says so: the
release build does not check for overflow, so such an operation wraps.

`RangeSpec.select` is the specification the arithmetic is measured against: the
bytes a range names, said about the object's content and not about offsets.
-/

namespace Cachic.Range

open CharText Tiling

/-! ## Machine words -/

/-- Addition of `w`-bit words. -/
def wrapAdd (w a b : ℕ) : ℕ := (a + b) % 2 ^ w

/-- Subtraction of `w`-bit words. -/
def wrapSub (w a b : ℕ) : ℕ := (a + (2 ^ w - b)) % 2 ^ w

/-- Subtraction that does not underflow is subtraction. -/
theorem wrapSub_of_le {w a b : ℕ} (hba : b ≤ a) (ha : a < 2 ^ w) : wrapSub w a b = a - b := by
  have hsplit : a + (2 ^ w - b) = a - b + 2 ^ w := by omega
  rw [wrapSub, hsplit, Nat.add_mod_right, Nat.mod_eq_of_lt (by omega)]

theorem wrapAdd_of_lt {w a b : ℕ} (h : a + b < 2 ^ w) : wrapAdd w a b = a + b :=
  Nat.mod_eq_of_lt h

/-! ## What a client asks for -/

/-- A client's `Range` request, before it is resolved against a length. -/
inductive RangeSpec
  | fromTo (start stop : ℕ)
  | from (start : ℕ)
  | suffix (n : ℕ)
  deriving DecidableEq, Repr

/-- A byte range with both ends included. -/
structure ByteRange where
  start : ℕ
  stop : ℕ
  deriving DecidableEq, Repr

/-- The number of bytes, computed as the source does: wrapping. -/
def ByteRange.len (r : ByteRange) : ℕ := wrapAdd 64 (wrapSub 64 r.stop r.start) 1

variable {spec : RangeSpec} {r : ByteRange} {total : ℕ}

theorem ByteRange.len_eq (h : r.start ≤ r.stop) (hstop : r.stop + 1 < 2 ^ 64) :
    r.len = r.stop + 1 - r.start := by
  rw [ByteRange.len, wrapSub_of_le h (by omega), wrapAdd_of_lt (by omega)]
  omega

inductive RangeError
  | malformed
  | multiple
  | unsatisfiable
  deriving DecidableEq, Repr

/-- Read a 64-bit number. -/
def parseU64 (text : List Char) : Except RangeError ℕ :=
  match parseUnsigned (2 ^ 64) text with
  | none => .error .malformed
  | some n => .ok n

/-- Parse a `Range` header value into a single range. -/
def parseRange (value : String) : Except RangeError RangeSpec :=
  match stripStart "bytes=".toList (trim value.toList) with
  | none => .error .malformed
  | some spec =>
      if ',' ∈ spec then .error .multiple
      else
        match splitOnce '-' spec with
        | none => .error .malformed
        | some (start, stop) =>
            match trim start, trim stop with
            | [], [] => .error .malformed
            | [], suffix => do
                let n ← parseU64 suffix
                return .suffix n
            | s, [] => do
                let start ← parseU64 s
                return .from start
            | s, e => do
                let start ← parseU64 s
                let stop ← parseU64 e
                if start > stop then throw .malformed
                return .fromTo start stop

/-- The specs a parse can produce: two-sided ranges are never inverted. -/
def RangeSpec.Ordered : RangeSpec → Prop
  | .fromTo start stop => start ≤ stop
  | _ => True

theorem parseRange_ordered {value : String} (h : parseRange value = .ok spec) : spec.Ordered := by
  cases spec with
  | «from» start => trivial
  | suffix n => trivial
  | fromTo start stop =>
      simp only [parseRange, bind, Except.bind, pure, Except.pure, throw, throwThe,
        MonadExceptOf.throw] at h
      -- one branch returns two ends, and it has compared them
      repeat' split at h
      all_goals cases h
      simp only [RangeSpec.Ordered]
      omega

/-! ## Resolving against a length -/

/-- Resolve a spec against a known object length. -/
def resolve (spec : RangeSpec) (total : ℕ) : Except RangeError ByteRange :=
  if total = 0 then .error .unsatisfiable
  else
    let last := total - 1
    match spec with
    | .fromTo start stop =>
        if start > last then .error .unsatisfiable
        else .ok { start := start, stop := min stop last }
    | .from start =>
        if start > last then .error .unsatisfiable
        else .ok { start := start, stop := last }
    | .suffix n =>
        if n = 0 then .error .unsatisfiable
        else
          let n := min n total
          .ok { start := total - n, stop := last }

/-- The whole object as a range. -/
def whole (total : ℕ) : Option ByteRange :=
  if total > 0 then some { start := 0, stop := total - 1 } else none

/-- The bytes of `content` a spec names: its meaning, independent of any
arithmetic on offsets. -/
def RangeSpec.select {α : Type} (content : List α) : RangeSpec → List α
  | .fromTo start stop => window content start (min stop (content.length - 1) + 1)
  | .from start => content.drop start
  | .suffix n => content.drop (content.length - min n content.length)

/-- The first and the last position a spec names in an object of `total` bytes. -/
def RangeSpec.span (total : ℕ) : RangeSpec → ByteRange
  | .fromTo start stop => { start := start, stop := min stop (total - 1) }
  | .from start => { start := start, stop := total - 1 }
  | .suffix n => { start := total - min n total, stop := total - 1 }

/-- A resolved range is the span of the spec. -/
theorem resolve_eq_span (h : resolve spec total = .ok r) : r = spec.span total := by
  cases spec <;> simp only [resolve] at h <;> split at h <;> try cases h
  all_goals
    split at h <;> cases h
    rfl

/-- A resolved range lies inside the object. -/
theorem resolve_bounds (hspec : spec.Ordered) (h : resolve spec total = .ok r) :
    r.start ≤ r.stop ∧ r.stop < total := by
  cases spec <;> simp only [resolve, RangeSpec.Ordered] at h hspec <;>
    split at h <;> try cases h
  all_goals
    split at h
    · cases h
    · cases h
      constructor <;> simp only <;> omega

/-- Resolving selects the bytes the spec names. -/
theorem window_resolve {α : Type} {content : List α} (h : resolve spec content.length = .ok r) :
    window content r.start (r.stop + 1) = spec.select content := by
  cases spec <;> simp only [resolve] at h <;> split at h <;> try cases h
  all_goals
    split at h
    · cases h
    · cases h
      first
        | rfl
        | exact window_of_length_le (by simp only; omega)

/-- A spec is refused exactly when it names no byte. -/
theorem resolve_eq_error_iff {α : Type} {content : List α} (hspec : spec.Ordered) :
    resolve spec content.length = .error .unsatisfiable ↔ spec.select content = [] := by
  have hlen : ∀ {xs : List α}, xs = [] ↔ xs.length = 0 := List.length_eq_zero_iff.symm
  cases spec <;>
    simp only [resolve, RangeSpec.select, RangeSpec.Ordered, hlen, length_window,
      List.length_drop] at hspec ⊢ <;> split
  all_goals first
    | (simp only [true_iff]; omega)
    | (split
       · simp only [true_iff]; omega
       · simp only [reduceCtorEq, false_iff]; omega)

/-- Resolving never fails for another reason. -/
theorem resolve_error {e : RangeError} (h : resolve spec total = .error e) :
    e = .unsatisfiable := by
  cases spec <;> simp only [resolve] at h <;> split at h
  all_goals first
    | (cases h; rfl)
    | (split at h <;> cases h; rfl)

/-! ## Slices -/

/-- The inclusive span of slice indices covering a byte range. -/
structure SlicePlan where
  first : ℕ
  last : ℕ
  sliceSize : ℕ
  deriving DecidableEq, Repr

def SlicePlan.count (p : SlicePlan) : ℕ := wrapAdd 32 (wrapSub 32 p.last p.first) 1

def SlicePlan.indices (p : SlicePlan) : List ℕ := List.range' p.first (p.last + 1 - p.first)

/-- The largest object whose slices all have an index. -/
def maxAddressableLen (sliceSize : ℕ) : ℕ := (2 ^ 32 - 1 + 1) * sliceSize

/-- Map a byte range onto slice indices, saturating at the largest index. -/
def plan (range : ByteRange) (sliceSize : ℕ) : SlicePlan :=
  let s := max sliceSize 1
  let toIndex := fun byte => min (byte / s) (2 ^ 32 - 1)
  let first := toIndex range.start
  let last := max (toIndex range.stop) first
  { first := first, last := last, sliceSize := sliceSize }

/-- The absolute byte range a slice covers within an object of `total` bytes. -/
def sliceExtent (index sliceSize total : ℕ) : ByteRange :=
  let start := index * sliceSize
  { start := start
    stop := min (wrapSub 64 (start + sliceSize) 1) (total - 1) }

/-- The part of slice `index`'s payload that belongs to `wanted`, as offsets into
the payload. -/
def payloadWindow (index sliceSize : ℕ) (wanted : ByteRange) : ℕ × ℕ :=
  let sliceStart := index * sliceSize
  (wanted.start - sliceStart,
    min (wrapAdd 64 (wrapSub 64 wanted.stop sliceStart) 1) sliceSize)

section Slices

variable {s total : ℕ}

variable {i : ℕ} {r : ByteRange} {α : Type}

/-- A plan whose last byte is addressable does not saturate. -/
theorem plan_eq (hs : 0 < s) (hr : r.start ≤ r.stop) (hstop : r.stop / s < 2 ^ 32) :
    plan r s = { first := r.start / s, last := r.stop / s, sliceSize := s } := by
  have hle : r.start / s ≤ r.stop / s := Nat.div_le_div_right hr
  have hmax : max s 1 = s := by omega
  simp only [plan, hmax, SlicePlan.mk.injEq, and_true]
  omega

theorem indices_plan (hs : 0 < s) (hr : r.start ≤ r.stop) (hstop : r.stop / s < 2 ^ 32) :
    (plan r s).indices = List.range' (r.start / s) (r.stop / s + 1 - r.start / s) := by
  rw [plan_eq hs hr hstop, SlicePlan.indices]

/-- The number of slices of a plan that leaves some index out. -/
theorem count_plan (hs : 0 < s) (hr : r.start ≤ r.stop) (hstop : r.stop / s < 2 ^ 32)
    (hcount : r.stop / s - r.start / s + 1 < 2 ^ 32) :
    (plan r s).count = r.stop / s - r.start / s + 1 := by
  have hle : r.start / s ≤ r.stop / s := Nat.div_le_div_right hr
  rw [plan_eq hs hr hstop, SlicePlan.count, wrapSub_of_le hle hstop, wrapAdd_of_lt hcount]

/-- Slice indices are 32-bit words, whatever the range. -/
theorem lt_of_mem_indices (h : i ∈ (plan r s).indices) : i < 2 ^ 32 := by
  simp only [SlicePlan.indices, plan, List.mem_range'_1] at h
  omega

/-- The extent of a slice that holds at least one byte of the object. -/
theorem sliceExtent_eq (hs : 0 < s) (hword : i * s + s < 2 ^ 64) (hi : i * s < total) :
    sliceExtent i s total = { start := i * s, stop := min ((i + 1) * s) total - 1 } := by
  simp only [sliceExtent, ByteRange.mk.injEq, true_and]
  rw [wrapSub_of_le (by omega) hword, add_mul]
  omega

/-- The length of such an extent. -/
theorem sliceExtent_len (hs : 0 < s) (hword : i * s + s < 2 ^ 64) (hi : i * s < total) :
    (sliceExtent i s total).len = min ((i + 1) * s) total - i * s := by
  have hmul : (i + 1) * s = i * s + s := by ring
  rw [sliceExtent_eq hs hword hi, ByteRange.len_eq]
  · simp only
    omega
  · simp only
    omega
  · simp only
    omega

/-- It is the length of the tile the extent names. -/
theorem sliceExtent_len_tile {content : List α} (hs : 0 < s) (hword : i * s + s < 2 ^ 64)
    (hi : i * s < content.length) :
    (sliceExtent i s content.length).len = (tile content s i).length := by
  rw [sliceExtent_len hs hword hi, tile, length_window]

/-- The bytes of an extent are the tile it names. -/
theorem window_sliceExtent {content : List α} (hs : 0 < s) (hword : i * s + s < 2 ^ 64)
    (hi : i * s < content.length) :
    window content (sliceExtent i s content.length).start
      ((sliceExtent i s content.length).stop + 1) = tile content s i := by
  have hmul : (i + 1) * s = i * s + s := by ring
  have hstop : min ((i + 1) * s) content.length - 1 + 1 = min ((i + 1) * s) content.length := by
    omega
  rw [sliceExtent_eq hs hword hi, tile]
  simp only [hstop, window_min_length]

/-- An extent never asks for more than a slice, whatever length it is cut at. -/
theorem length_window_sliceExtent_le {content : List α} (hs : 0 < s) (hword : i * s + s < 2 ^ 64) :
    (window content (sliceExtent i s total).start ((sliceExtent i s total).stop + 1)).length ≤
      s := by
  simp only [sliceExtent]
  rw [wrapSub_of_le (by omega) hword, length_window]
  omega

/-- The bytes of a whole slice's range, both ends included, are its tile. -/
theorem window_slice (content : List α) (hs : 0 < s) (i : ℕ) :
    window content (i * s) (i * s + s - 1 + 1) = tile content s i := by
  have hstop : i * s + s - 1 + 1 = (i + 1) * s := by
    rw [add_mul]
    omega
  rw [hstop, tile]

/-- The window of a slice that holds a wanted byte. -/
theorem payloadWindow_eq {wanted : ByteRange} (hi : i * s ≤ wanted.stop)
    (hstop : wanted.stop + 1 < 2 ^ 64) :
    payloadWindow i s wanted =
      (wanted.start - i * s, min (wanted.stop + 1 - i * s) s) := by
  simp only [payloadWindow, Prod.mk.injEq, true_and]
  rw [wrapSub_of_le hi (by omega), wrapAdd_of_lt (by omega)]
  congr 1
  omega

/-- **The slice windows of a plan tile the wanted range**: concatenated in index
order they are its bytes, each exactly once. -/
theorem flatten_payloadWindows {content : List α} (hs : 0 < s) (hr : r.start ≤ r.stop)
    (hstop : r.stop / s < 2 ^ 32) (hword : r.stop + 1 < 2 ^ 64) :
    ((plan r s).indices.map fun i =>
      window (tile content s i) (payloadWindow i s r).1 (payloadWindow i s r).2).flatten =
      window content r.start (r.stop + 1) := by
  have htiles := @flatten_tiles α content s r.start (r.stop + 1) hs (Nat.lt_succ_of_le hr)
  rw [indices_plan hs hr hstop, ← htiles]
  congr 1
  apply List.map_congr_left
  intro i hi
  have hi_le : i * s ≤ r.stop := by
    rw [List.mem_range'_1] at hi
    have hmul : i * s ≤ r.stop / s * s := Nat.mul_le_mul_right s (by omega)
    exact le_trans hmul (Nat.div_mul_le_self _ _)
  rw [payloadWindow_eq hi_le hword]

end Slices

end Cachic.Range
