import Mathlib.Tactic

/-!
# Windows of a list and how they tile

`window xs a b` is the part of `xs` at positions `a ≤ i < b`, clipped to what
there is.  A store that keeps a long list in pieces of one width `s` keeps
`tile s xs i` under index `i`; a reader that wants `window xs a b` takes from each
tile the part that lies in `[a, b)` and concatenates.  `flatten_tiles` says that
this gives back exactly the window, with nothing missing and nothing twice.
-/

namespace Tiling

variable {α : Type} (xs : List α)

/-- The elements at positions `a ≤ i < b`. -/
def window (a b : ℕ) : List α := (xs.take b).drop a

/-- The `i`-th piece of width `s`; the last one may be short. -/
def tile (s i : ℕ) : List α := window xs (i * s) ((i + 1) * s)

variable {xs}

@[simp] theorem length_window (a b : ℕ) :
    (window xs a b).length = min b xs.length - a := by
  simp [window]

theorem window_eq_nil {a b : ℕ} (h : b ≤ a) : window xs a b = [] := by
  rw [← List.length_eq_zero_iff, length_window]
  omega

/-- A window that reaches past the end is the rest of the list. -/
theorem window_of_length_le {a b : ℕ} (h : xs.length ≤ b) : window xs a b = xs.drop a := by
  rw [window, List.take_of_length_le h]

/-- Only the part of the bounds inside the list matters. -/
theorem window_min_length (a b : ℕ) : window xs a (min b xs.length) = window xs a b := by
  rw [window, window, ← List.take_eq_take_min]

/-- Two adjoining windows. -/
theorem window_append {a b c : ℕ} (hab : a ≤ b) (hbc : b ≤ c) :
    window xs a b ++ window xs b c = window xs a c := by
  have htake : xs.take b = (xs.take c).take b := by
    rw [List.take_take, min_eq_left hbc]
  have hdrop : (xs.take c).drop b = ((xs.take c).drop a).drop (b - a) := by
    rw [List.drop_drop, Nat.add_sub_cancel' hab]
  unfold window
  rw [htake, List.drop_take, hdrop, List.take_append_drop]

/-- A window of a window. -/
theorem window_window (a b c d : ℕ) :
    window (window xs a b) c d = window xs (a + c) (min b (a + d)) := by
  unfold window
  rw [List.take_drop, List.take_take, List.drop_drop, min_comm]

theorem length_tile_le (s i : ℕ) : (tile xs s i).length ≤ s := by
  rw [tile, length_window, add_mul]
  omega

theorem length_tile (s i : ℕ) : (tile xs s i).length = min s (xs.length - i * s) := by
  rw [tile, length_window, add_mul, one_mul]
  omega

/-- A tile as a reader cuts it off the front of what is left. -/
theorem tile_eq_take_drop (s i : ℕ) : tile xs s i = (xs.drop (i * s)).take s := by
  rw [tile, window, List.take_drop, add_mul, one_mul]

/-- A whole tile does not change when the list grows. -/
theorem tile_append_left {ys : List α} {s i : ℕ} (h : (i + 1) * s ≤ xs.length) :
    tile (xs ++ ys) s i = tile xs s i := by
  rw [tile, tile, window, window, List.take_append_of_le_length h]

/-- The tile the list ends in is the rest of the list. -/
theorem tile_last {s : ℕ} (hs : 0 < s) :
    tile xs s (xs.length / s) = xs.drop (xs.length / s * s) := by
  have hlt : xs.length < (xs.length / s + 1) * s := by
    rw [add_mul, one_mul]
    exact Nat.lt_div_mul_add hs
  exact window_of_length_le hlt.le

/-- Consecutive windows between growing cut points make one window. -/
theorem flatten_windows {cut : ℕ → ℕ} (hcut : Monotone cut) (first n : ℕ) :
    ((List.range' first n).map fun i => window xs (cut i) (cut (i + 1))).flatten =
      window xs (cut first) (cut (first + n)) := by
  induction n generalizing first with
  | zero => simp [window_eq_nil]
  | succ n ih =>
      rw [List.range'_succ, List.map_cons, List.flatten_cons, ih (first + 1),
        window_append (hcut (by omega)) (hcut (by omega))]
      congr 2
      omega

/-- The first tiles make the front of the list. -/
theorem flatten_range_tiles (s n : ℕ) :
    ((List.range n).map (tile xs s)).flatten = xs.take (n * s) := by
  have hcut : Monotone fun i : ℕ => i * s := fun i j h => Nat.mul_le_mul_right s h
  have hwindows := @flatten_windows α xs _ hcut 0 n
  simp only [zero_mul, Nat.zero_add] at hwindows
  rw [List.range_eq_range']
  exact hwindows

/-! ## The tiles that meet a window -/

section Cuts

variable {s a b : ℕ}

/-- The boundary before tile `i`, clamped to `[a, b]`. -/
def cut (s a b i : ℕ) : ℕ := max a (min b (i * s))

theorem monotone_cut : Monotone (cut s a b) := by
  intro i j hij
  have hmul : i * s ≤ j * s := Nat.mul_le_mul_right s hij
  simp only [cut]
  omega

theorem cut_first (hab : a < b) : cut s a b (a / s) = a := by
  have hlo : a / s * s ≤ a := Nat.div_mul_le_self a s
  simp only [cut]
  omega

theorem cut_last (hs : 0 < s) (hab : a < b) : cut s a b ((b - 1) / s + 1) = b := by
  have hhi := Nat.lt_div_mul_add hs (a := b - 1)
  simp only [cut, add_mul, one_mul]
  omega

/-- The tiles from the one holding `a` to the one holding `b - 1` end after `a` and
begin before `b`. -/
theorem meets_of_mem {i : ℕ} (hs : 0 < s) (hab : a < b)
    (hi : i ∈ List.range' (a / s) ((b - 1) / s + 1 - a / s)) :
    a < i * s + s ∧ i * s < b := by
  rw [List.mem_range'_1] at hi
  constructor
  · have hmul : a / s * s ≤ i * s := Nat.mul_le_mul_right s hi.1
    have := Nat.lt_div_mul_add hs (a := a)
    omega
  · have hmul : i * s ≤ (b - 1) / s * s := Nat.mul_le_mul_right s (by omega)
    have := Nat.div_mul_le_self (b - 1) s
    omega

/-- The number of those tiles, counted from the first. -/
theorem first_add_tiles (hab : a < b) : a / s + ((b - 1) / s + 1 - a / s) = (b - 1) / s + 1 := by
  have hle : a / s ≤ (b - 1) / s := Nat.div_le_div_right (by omega)
  omega

/-- **The tiles of a window make the window.**  Each tile from the one holding
position `a` to the one holding position `b - 1` contributes the part of it that
lies in `[a, b)`. -/
theorem flatten_tiles (hs : 0 < s) (hab : a < b) :
    ((List.range' (a / s) ((b - 1) / s + 1 - a / s)).map fun i =>
      window (tile xs s i) (a - i * s) (min (b - i * s) s)).flatten = window xs a b := by
  have hpieces : ∀ i ∈ List.range' (a / s) ((b - 1) / s + 1 - a / s),
      window (tile xs s i) (a - i * s) (min (b - i * s) s) =
        window xs (cut s a b i) (cut s a b (i + 1)) := by
    intro i hi
    obtain ⟨hi_lo, hi_hi⟩ := meets_of_mem hs hab hi
    rw [tile, window_window]
    simp only [cut, add_mul, one_mul]
    congr 1 <;> omega
  rw [List.map_congr_left hpieces, flatten_windows monotone_cut, first_add_tiles hab,
    cut_first hab, cut_last hs hab]

/-- Spans of positions that are not empty and adjoin, from `a` up to `b`. -/
def Adjoins : ℕ → ℕ → List (ℕ × ℕ) → Prop
  | a, b, [] => a = b
  | a, b, span :: rest => span.1 = a ∧ span.1 < span.2 ∧ Adjoins span.2 b rest

theorem Adjoins.le {spans : List (ℕ × ℕ)} (h : Adjoins a b spans) : a ≤ b := by
  induction spans generalizing a with
  | nil => exact le_of_eq h
  | cons span rest ih =>
      obtain ⟨rfl, hlt, hrest⟩ := h
      exact hlt.le.trans (ih hrest)

/-- Together they are as long as what they cover. -/
theorem Adjoins.sum_lengths {spans : List (ℕ × ℕ)} (h : Adjoins a b spans) :
    (spans.map fun span => span.2 - span.1).sum = b - a := by
  induction spans generalizing a with
  | nil =>
      have hab : a = b := h
      simp [hab]
  | cons span rest ih =>
      obtain ⟨rfl, hlt, hrest⟩ := h
      have hle := hrest.le
      rw [List.map_cons, List.sum_cons, ih hrest]
      omega

/-- The spans between cut points that grow at every step. -/
theorem adjoins_cuts {cut : ℕ → ℕ} (first n : ℕ)
    (hcut : ∀ i ∈ List.range' first n, cut i < cut (i + 1)) :
    Adjoins (cut first) (cut (first + n))
      ((List.range' first n).map fun i => (cut i, cut (i + 1))) := by
  induction n generalizing first with
  | zero => rfl
  | succ n ih =>
      rw [List.range'_succ] at hcut ⊢
      have hrest := ih (first + 1) fun i hi => hcut i (List.mem_cons_of_mem _ hi)
      rw [add_right_comm] at hrest
      exact ⟨rfl, hcut first List.mem_cons_self, hrest⟩

/-- **The parts of a window in its tiles** are spans that adjoin, from the window's
first position to its end. -/
theorem adjoins_tiles (hs : 0 < s) (hab : a < b) :
    Adjoins a b ((List.range' (a / s) ((b - 1) / s + 1 - a / s)).map fun i =>
      (i * s + (a - i * s), i * s + min (b - i * s) s)) := by
  have hspans : ∀ i ∈ List.range' (a / s) ((b - 1) / s + 1 - a / s),
      (i * s + (a - i * s), i * s + min (b - i * s) s) =
        (cut s a b i, cut s a b (i + 1)) := by
    intro i hi
    obtain ⟨hi_lo, hi_hi⟩ := meets_of_mem hs hab hi
    simp only [cut, add_mul, one_mul, Prod.mk.injEq]
    omega
  have hgrow : ∀ i ∈ List.range' (a / s) ((b - 1) / s + 1 - a / s),
      cut s a b i < cut s a b (i + 1) := by
    intro i hi
    obtain ⟨hi_lo, hi_hi⟩ := meets_of_mem hs hab hi
    simp only [cut, add_mul, one_mul]
    omega
  have hcuts := adjoins_cuts _ _ hgrow
  rwa [first_add_tiles hab, cut_first hab, cut_last hs hab,
    ← List.map_congr_left hspans] at hcuts

end Cuts

end Tiling
