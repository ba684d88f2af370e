import Mathlib.Data.List.AList
import Mathlib.Data.List.Perm.Subperm
import Mathlib.Tactic

/-!
# Tables that are kept small

The operations by which a program bounds a hash table it keeps as an optimisation: keep the
entries that pass a test, and drop the oldest ones.  A hash table hands out its entries in
an order of its own, which may be another at every call; `Arrangement` is such an order, and
nothing here depends on which one it is.
-/

namespace BoundedTable

variable {K V : Type}

/-- A table from keys to values. -/
abbrev Table (K V : Type) := AList fun _ : K => V

/-- The number of entries. -/
def size (t : Table K V) : ℕ := t.keys.length

theorem size_le_of_keys_subset {t t' : Table K V} (h : t.keys ⊆ t'.keys) : size t ≤ size t' :=
  (List.subperm_of_subset t.keys_nodup h).length_le

variable [DecidableEq K]

theorem size_insert_le (t : Table K V) (k : K) (v : V) : size (t.insert k v) ≤ size t + 1 := by
  have herase := List.length_erase_le (a := k) (l := t.keys)
  rw [size, AList.keys_insert, List.length_cons]
  exact Nat.succ_le_succ herase

/-! ## Keeping some entries -/

/-- Keep the entries whose value passes the test. -/
def retain (keep : V → Bool) (t : Table K V) : Table K V :=
  ⟨t.entries.filter fun e => keep e.2, t.nodupKeys.sublist List.filter_sublist⟩

theorem lookup_retain {keep : V → Bool} {t : Table K V} {k : K} {v : V} :
    (retain keep t).lookup k = some v ↔ t.lookup k = some v ∧ keep v = true := by
  rw [← Option.mem_def, ← Option.mem_def, AList.mem_lookup_iff, AList.mem_lookup_iff]
  exact List.mem_filter

omit [DecidableEq K] in
theorem size_retain_le (keep : V → Bool) (t : Table K V) : size (retain keep t) ≤ size t :=
  size_le_of_keys_subset
    (AList.keys_subset_keys_of_entries_subset_entries List.filter_sublist.subset)

/-! ## Removing several -/

/-- Remove the entries of the given keys, one after the other. -/
def eraseAll (t : Table K V) (keys : List K) : Table K V := keys.foldl (fun t k => t.erase k) t

theorem lookup_eraseAll (t : Table K V) (keys : List K) (k : K) :
    (eraseAll t keys).lookup k = if k ∈ keys then none else t.lookup k := by
  induction keys generalizing t with
  | nil => simp [eraseAll]
  | cons first rest ih =>
      have hstep : eraseAll t (first :: rest) = eraseAll (t.erase first) rest := rfl
      rw [hstep, ih]
      by_cases hfirst : k = first
      · subst hfirst
        simp
      · simp [hfirst, AList.lookup_erase_ne hfirst]

/-- Each of the keys takes one entry away. -/
theorem size_eraseAll {t : Table K V} {keys : List K} (hnodup : keys.Nodup)
    (hmem : ∀ k ∈ keys, k ∈ t) : size (eraseAll t keys) + keys.length = size t := by
  induction keys generalizing t with
  | nil => rfl
  | cons first rest ih =>
      obtain ⟨hfirst, hrest⟩ := List.nodup_cons.mp hnodup
      obtain ⟨hin, hmem⟩ := List.forall_mem_cons.mp hmem
      have hkept : ∀ k ∈ rest, k ∈ t.erase first := by
        intro k hk
        refine AList.mem_erase.mpr ⟨?_, hmem k hk⟩
        rintro rfl
        exact hfirst hk
      have hsize : size (t.erase first) = size t - 1 := by
        rw [size, AList.keys_erase, List.length_erase_of_mem (AList.mem_keys.mp hin)]
        rfl
      have hpos : 0 < size t := List.length_pos_of_mem (AList.mem_keys.mp hin)
      have hstep := ih hrest hkept
      show size (eraseAll (t.erase first) rest) + (rest.length + 1) = size t
      omega

/-! ## Dropping the oldest -/

/-- An order in which entries are handed out. -/
structure Arrangement (α : Type) where
  arrange : List α → List α
  perm : ∀ xs, (arrange xs).Perm xs

/-- The order of the table itself. -/
def Arrangement.stored (α : Type) : Arrangement α where
  arrange xs := xs
  perm := List.Perm.refl

section Oldest

variable (age : V → ℕ) (order : Arrangement (K × ℕ)) (t : Table K V) (n : ℕ)

/-- The keys and their ages. -/
def ages : List (K × ℕ) := t.entries.map fun e => (e.1, age e.2)

/-- The keys and their ages, from the oldest to the newest. -/
def sortedAges : List (K × ℕ) := (order.arrange (ages age t)).mergeSort fun a b => a.2 ≤ b.2

/-- The keys of the `n` oldest entries. -/
def oldest : List K := ((sortedAges age order t).take n).map Prod.fst

/-- Remove the `n` oldest entries. -/
def dropOldest : Table K V := eraseAll t (oldest age order t n)

variable {age order t n}

omit [DecidableEq K] in
theorem sortedAges_perm : (sortedAges age order t).Perm (ages age t) :=
  (List.mergeSort_perm _ _).trans (order.perm _)

omit [DecidableEq K] in
theorem sortedAges_keys_perm : ((sortedAges age order t).map Prod.fst).Perm t.keys := by
  have hkeys : (ages age t).map Prod.fst = t.keys := by
    rw [ages, List.map_map]
    rfl
  exact hkeys ▸ sortedAges_perm.map Prod.fst

theorem size_dropOldest (h : n ≤ size t) : size (dropOldest age order t n) + n = size t := by
  have hsublist : (oldest age order t n).Sublist ((sortedAges age order t).map Prod.fst) :=
    (List.take_sublist _ _).map Prod.fst
  have hnodup : (oldest age order t n).Nodup :=
    (sortedAges_keys_perm.nodup_iff.mpr t.keys_nodup).sublist hsublist
  have hmem : ∀ k ∈ oldest age order t n, k ∈ t := fun k hk =>
    AList.mem_keys.mpr (sortedAges_keys_perm.mem_iff.mp (hsublist.subset hk))
  have hlength : (oldest age order t n).length = n := by
    have hall : (sortedAges age order t).length = size t := by
      rw [← List.length_map Prod.fst]
      exact sortedAges_keys_perm.length_eq
    rw [oldest, List.length_map, List.length_take, hall]
    exact min_eq_left h
  have herased := size_eraseAll hnodup hmem
  rw [hlength] at herased
  exact herased

theorem lookup_of_dropOldest {k : K} {v : V} (h : (dropOldest age order t n).lookup k = some v) :
    k ∉ oldest age order t n ∧ t.lookup k = some v := by
  rw [dropOldest, lookup_eraseAll] at h
  split at h
  · cases h
  · next hk => exact ⟨hk, h⟩

end Oldest

end BoundedTable
