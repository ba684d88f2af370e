import Mathlib.Tactic

/-!
# A fair counting semaphore

A semaphore hands out a fixed number of permits.  An acquisition that finds none free joins a
queue, and a permit that is given back goes to the first in the queue rather than to the free
ones: the waiter is `granted` it there and then, and takes it when it next looks.  So a permit
is in one of three places: free, granted and not yet taken, or held by a task.

The semaphore does not know the tasks; a waiter is a value of `W`.  `Balanced` says where the
permits are, and the lemmas about `waiters` which operations change who is waiting.
-/

/-- Free permits, who waits for one, first come first, and who has been granted one and has
not taken it. -/
structure Semaphore (W : Type) where
  permits : ℕ
  queue : List W
  granted : List W
  deriving DecidableEq, Repr

namespace Semaphore

variable {W : Type}

def new (capacity : ℕ) : Semaphore W := { permits := capacity, queue := [], granted := [] }

/-- Everybody the semaphore has in its books. -/
def waiters (s : Semaphore W) : List W := s.queue ++ s.granted

/-- Give one permit back. -/
def release (s : Semaphore W) : Semaphore W :=
  match s.queue with
  | [] => { s with permits := s.permits + 1 }
  | w :: rest => { s with queue := rest, granted := s.granted ++ [w] }

/-- The first look of an acquisition: a permit if one is free, otherwise a place in the
queue. -/
def acquire (s : Semaphore W) (w : W) : Bool × Semaphore W :=
  if s.permits = 0 then (false, { s with queue := s.queue ++ [w] })
  else (true, { s with permits := s.permits - 1 })

variable [DecidableEq W]

/-- A later look. -/
def collect (s : Semaphore W) (w : W) : Option (Semaphore W) :=
  if w ∈ s.granted then some { s with granted := s.granted.erase w } else none

/-- An acquisition is dropped while it waits.  A permit it was granted goes on to the next. -/
def abandon (s : Semaphore W) (w : W) : Semaphore W :=
  if w ∈ s.granted then release { s with granted := s.granted.erase w }
  else { s with queue := s.queue.erase w }

/-! ## Where the permits are -/

/-- Of `capacity` permits `held` are held, and the rest are free or granted; none is free
while somebody is in the queue. -/
structure Balanced (capacity held : ℕ) (s : Semaphore W) : Prop where
  total : s.permits + s.granted.length + held = capacity
  idle : s.queue ≠ [] → s.permits = 0

section Balanced

variable {capacity held : ℕ} {s s' : Semaphore W} {w : W}

omit [DecidableEq W] in
theorem Balanced.new (capacity : ℕ) : (new capacity : Semaphore W).Balanced capacity 0 :=
  ⟨rfl, fun h => absurd rfl h⟩

omit [DecidableEq W] in
/-- Nothing is held beyond the capacity. -/
theorem Balanced.held_le (h : s.Balanced capacity held) : held ≤ capacity := by
  have := h.total
  omega

omit [DecidableEq W] in
theorem Balanced.release (h : s.Balanced capacity (held + 1)) :
    s.release.Balanced capacity held := by
  have htotal := h.total
  unfold Semaphore.release
  split
  · next hempty => exact ⟨by dsimp only; omega, fun hne => absurd hempty hne⟩
  · next w rest hqueue =>
      refine ⟨?_, fun _ => h.idle (by simp [hqueue])⟩
      dsimp only
      rw [List.length_append, List.length_singleton]
      omega

omit [DecidableEq W] in
theorem Balanced.acquire (h : s.Balanced capacity held) {got : Bool}
    (hacquire : s.acquire w = (got, s')) :
    s'.Balanced capacity (if got then held + 1 else held) := by
  have htotal := h.total
  unfold Semaphore.acquire at hacquire
  split at hacquire <;> cases hacquire
  · next hnone => exact ⟨htotal, fun _ => hnone⟩
  · next hsome =>
      refine ⟨?_, fun hne => absurd (h.idle hne) hsome⟩
      dsimp only
      rw [if_pos rfl]
      omega

theorem Balanced.collect (h : s.Balanced capacity held) (hcollect : s.collect w = some s') :
    s'.Balanced capacity (held + 1) := by
  have htotal := h.total
  unfold Semaphore.collect at hcollect
  split at hcollect <;> cases hcollect
  next hmem =>
    have hpos := List.length_pos_of_mem hmem
    refine ⟨?_, h.idle⟩
    dsimp only
    rw [List.length_erase_of_mem hmem]
    omega

theorem Balanced.abandon (h : s.Balanced capacity held) (w : W) :
    (s.abandon w).Balanced capacity held := by
  unfold Semaphore.abandon
  split
  · next hmem =>
      -- as if it had been taken and given back
      exact (h.collect (if_pos hmem)).release
  · refine ⟨h.total, fun hne => h.idle fun hempty => hne ?_⟩
    dsimp only
    rw [hempty, List.erase_nil]

omit [DecidableEq W] in
/-- With everything held there is nobody who could take a permit. -/
theorem Balanced.granted_of_queue (h : s.Balanced capacity held) (hqueue : s.queue ≠ [])
    (hroom : held < capacity) : s.granted ≠ [] := by
  have htotal := h.total
  have hnone := h.idle hqueue
  intro hempty
  rw [hempty, List.length_nil] at htotal
  omega

end Balanced

/-! ## Who is waiting -/

section Waiting

variable {s s' : Semaphore W} {w : W}

omit [DecidableEq W] in
/-- A release moves a waiter on, and nobody in or out. -/
theorem release_waiters_perm (s : Semaphore W) : s.release.waiters.Perm s.waiters := by
  unfold release waiters
  split
  · next hempty => simp [hempty]
  · next w rest hqueue =>
      rw [hqueue, ← List.append_assoc]
      exact List.perm_append_singleton w (rest ++ s.granted)

omit [DecidableEq W] in
theorem acquire_waiters_perm {got : Bool} (h : s.acquire w = (got, s')) :
    s'.waiters.Perm (if got then s.waiters else w :: s.waiters) := by
  unfold acquire at h
  split at h <;> cases h
  · simp only [waiters, Bool.false_eq_true, if_false, List.append_assoc]
    exact List.perm_middle
  · exact .refl _

/-- Taking a granted permit takes the waiter off the books, once. -/
theorem collect_waiters_perm (h : s.collect w = some s') : s.waiters.Perm (w :: s'.waiters) := by
  unfold collect at h
  split at h <;> cases h
  next hmem =>
    exact ((List.perm_cons_erase hmem).append_left s.queue).trans List.perm_middle

theorem abandon_waiters_perm (h : w ∈ s.waiters) : s.waiters.Perm (w :: (s.abandon w).waiters) := by
  unfold abandon
  split
  · next hmem =>
      exact (collect_waiters_perm (if_pos hmem)).trans
        ((release_waiters_perm _).symm.cons w)
  · next hnot =>
      have hqueue : w ∈ s.queue := (List.mem_append.mp h).resolve_right hnot
      exact (List.perm_cons_erase hqueue).append_right s.granted

end Waiting

end Semaphore
