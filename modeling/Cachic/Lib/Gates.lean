import Cachic.Lib.Semaphore
import Cachic.Lib.Team

/-!
# Tasks behind gates

A gate is a fair semaphore.  A task runs freely for a while, then passes a few gates one after
the other, works inside with a permit of each, gives the permits back in reverse order and is
outside again.  What it does outside and inside is its own affair, a `Behaviour`; it may be
dropped wherever it waits, and gives back what it has.

Gates have a rank, and the gates of a `Route` come in the order of their ranks.  That is the
whole discipline, and it is enough:

* `Orderly.run`: the permits of every gate are free, granted or held, in every state;
* `exists_able_of_waiting`: a waiting task never waits for ever on the others, unless they are
  stalled inside and have taken a whole gate with them;
* `cost_lt_of_move`: a task whose own steps come to an end comes to an end.
-/

namespace Gated

open ThreadTeam

/-- The gates a task passes, lowest rank first. -/
structure Route {G : Type} {n : ℕ} (rank : G → Fin n) where
  gates : List G
  ordered : gates.Pairwise fun a b => rank a < rank b

/-- What a task does by itself: as a `W` outside and as a `V` from the moment it enters a route
until its work is done.  `abandon` is what is left of a task that is dropped on the way or
inside, `drop` of one that is dropped outside, where there is something to drop. -/
structure Behaviour {G : Type} {n : ℕ} (rank : G → Fin n) (W V C : Type) where
  initial : W → Bool
  outer : W → C → Option (W ⊕ (V × Route rank))
  inner : V → C → Option (V ⊕ W)
  drop : W → Option W
  abandon : V → W

/-- Where a task is.  On its route it knows how many gates it has passed, on the way out how
many it still holds. -/
inductive Task {G : Type} {n : ℕ} (rank : G → Fin n) (W V : Type)
  | outside (w : W)
  /-- before the first look at the next gate -/
  | entering (v : V) (route : Route rank) (passed : ℕ)
  | queued (v : V) (route : Route rank) (passed : ℕ)
  | inside (v : V) (route : Route rank)
  | leaving (w : W) (route : Route rank) (held : ℕ)

/-- A step at a gate, a step of the task's own, or its end before the time. -/
inductive Choice (C : Type)
  | gate
  | own (c : C)
  | drop
  deriving DecidableEq, Repr

variable {G W V C : Type} {n : ℕ} {rank : G → Fin n}

/-- Whether a gate is one of the first `k` of a route. -/
def Route.has [DecidableEq G] (route : Route rank) (k : ℕ) (gate : G) : Bool :=
  gate ∈ route.gates.take k

namespace Task

/-- The gate a task waits at. -/
def waitsAt : Task rank W V → Option G
  | .queued _ route passed => route.gates[passed]?
  | _ => none

def start (b : Behaviour rank W V C) : Task rank W V → Bool
  | .outside w => b.initial w
  | _ => false

def isOutside : Task rank W V → Bool
  | .outside _ => true
  | _ => false

variable [DecidableEq G]

def holds (gate : G) : Task rank W V → Bool
  | .outside _ => false
  | .entering _ route passed => route.has passed gate
  | .queued _ route passed => route.has passed gate
  | .inside _ route => route.has route.gates.length gate
  | .leaving _ route held => route.has held gate

def move (b : Behaviour rank W V C) (tid : ℕ) (t : Task rank W V) (choice : Choice C)
    (s : G → Semaphore ℕ) : Option (Task rank W V × (G → Semaphore ℕ)) :=
  match t, choice with
  | .outside w, .own c =>
      (b.outer w c).map fun
        | .inl w' => (.outside w', s)
        | .inr (v, route) => (.entering v route 0, s)
  | .outside w, .drop => (b.drop w).map fun w' => (.outside w', s)
  | .entering v route passed, .gate =>
      match route.gates[passed]? with
      | none => some (.inside v route, s)
      | some gate =>
          match (s gate).acquire tid with
          | (true, sem) => some (.entering v route (passed + 1), Function.update s gate sem)
          | (false, sem) => some (.queued v route passed, Function.update s gate sem)
  | .queued v route passed, .gate =>
      match route.gates[passed]? with
      | none => some (.inside v route, s)
      | some gate => ((s gate).collect tid).map fun sem =>
          (.entering v route (passed + 1), Function.update s gate sem)
  | .queued v route passed, .drop =>
      (route.gates[passed]?).map fun gate =>
        (.leaving (b.abandon v) route passed, Function.update s gate ((s gate).abandon tid))
  | .inside v route, .own c =>
      (b.inner v c).map fun
        | .inl v' => (.inside v' route, s)
        | .inr w => (.leaving w route route.gates.length, s)
  | .inside v route, .drop => some (.leaving (b.abandon v) route route.gates.length, s)
  | .leaving w _ 0, .gate => some (.outside w, s)
  | .leaving w route (held + 1), .gate =>
      match route.gates[held]? with
      | none => some (.leaving w route held, s)
      | some gate => some (.leaving w route held, Function.update s gate (s gate).release)
  | _, _ => none

end Task

/-- Any number of tasks over the same gates. -/
def machine [DecidableEq G] (b : Behaviour rank W V C) :
    Machine (G → Semaphore ℕ) (Task rank W V) (Choice C) where
  start := Task.start b
  move := Task.move b

/-! ## What a step can do -/

section Steps

variable [DecidableEq G]

/-- The moves of a task. -/
inductive Moves (b : Behaviour rank W V C) (tid : ℕ) (s : G → Semaphore ℕ) :
    Choice C → Task rank W V → Task rank W V → (G → Semaphore ℕ) → Prop
  | outer {w w' : W} {c : C} (h : b.outer w c = some (.inl w')) :
      Moves b tid s (.own c) (.outside w) (.outside w') s
  | enter {w : W} {v : V} {route : Route rank} {c : C} (h : b.outer w c = some (.inr (v, route))) :
      Moves b tid s (.own c) (.outside w) (.entering v route 0) s
  | drop {w w' : W} (h : b.drop w = some w') : Moves b tid s .drop (.outside w) (.outside w') s
  | pass {v : V} {route : Route rank} {passed : ℕ} {gate : G} {sem : Semaphore ℕ}
      (hgate : route.gates[passed]? = some gate) (h : (s gate).acquire tid = (true, sem)) :
      Moves b tid s .gate (.entering v route passed) (.entering v route (passed + 1))
        (Function.update s gate sem)
  | queue {v : V} {route : Route rank} {passed : ℕ} {gate : G} {sem : Semaphore ℕ}
      (hgate : route.gates[passed]? = some gate) (h : (s gate).acquire tid = (false, sem)) :
      Moves b tid s .gate (.entering v route passed) (.queued v route passed)
        (Function.update s gate sem)
  | arrive {v : V} {route : Route rank} {t : Task rank W V} {passed : ℕ}
      (ht : t = .entering v route passed ∨ t = .queued v route passed)
      (hgate : route.gates[passed]? = none) : Moves b tid s .gate t (.inside v route) s
  | collect {v : V} {route : Route rank} {passed : ℕ} {gate : G} {sem : Semaphore ℕ}
      (hgate : route.gates[passed]? = some gate) (h : (s gate).collect tid = some sem) :
      Moves b tid s .gate (.queued v route passed) (.entering v route (passed + 1))
        (Function.update s gate sem)
  | abandon {v : V} {route : Route rank} {passed : ℕ} {gate : G}
      (hgate : route.gates[passed]? = some gate) :
      Moves b tid s .drop (.queued v route passed) (.leaving (b.abandon v) route passed)
        (Function.update s gate ((s gate).abandon tid))
  | inner {v v' : V} {route : Route rank} {c : C} (h : b.inner v c = some (.inl v')) :
      Moves b tid s (.own c) (.inside v route) (.inside v' route) s
  | finish {v : V} {w : W} {route : Route rank} {c : C} (h : b.inner v c = some (.inr w)) :
      Moves b tid s (.own c) (.inside v route) (.leaving w route route.gates.length) s
  | abandonInside {v : V} {route : Route rank} :
      Moves b tid s .drop (.inside v route) (.leaving (b.abandon v) route route.gates.length) s
  | giveBack {w : W} {route : Route rank} {held : ℕ} {gate : G}
      (hgate : route.gates[held]? = some gate) :
      Moves b tid s .gate (.leaving w route (held + 1)) (.leaving w route held)
        (Function.update s gate (s gate).release)
  | nothingBack {w : W} {route : Route rank} {held : ℕ} (hgate : route.gates[held]? = none) :
      Moves b tid s .gate (.leaving w route (held + 1)) (.leaving w route held) s
  | leave {w : W} {route : Route rank} : Moves b tid s .gate (.leaving w route 0) (.outside w) s

theorem moves_of_move {b : Behaviour rank W V C} {tid : ℕ} {t t' : Task rank W V}
    {choice : Choice C} {s s' : G → Semaphore ℕ} (h : t.move b tid choice s = some (t', s')) :
    Moves b tid s choice t t' s' := by
  unfold Task.move at h
  cases t with
  | outside w =>
      cases choice with
      | gate => cases h
      | own c =>
          rw [Option.map_eq_some_iff] at h
          obtain ⟨next, houter, heq⟩ := h
          rcases next with w' | ⟨v, route⟩
          · cases heq; exact .outer houter
          · cases heq; exact .enter houter
      | drop =>
          rw [Option.map_eq_some_iff] at h
          obtain ⟨w', hdrop, heq⟩ := h
          cases heq
          exact .drop hdrop
  | entering v route passed =>
      cases choice with
      | gate =>
          dsimp only at h
          split at h
          · next hgate => cases h; exact .arrive (.inl rfl) hgate
          · next gate hgate =>
              split at h
              · next sem hacquire => cases h; exact .pass hgate hacquire
              · next sem hacquire => cases h; exact .queue hgate hacquire
      | own c => cases h
      | drop => cases h
  | queued v route passed =>
      cases choice with
      | gate =>
          dsimp only at h
          split at h
          · next hgate => cases h; exact .arrive (.inr rfl) hgate
          · next gate hgate =>
              rw [Option.map_eq_some_iff] at h
              obtain ⟨sem, hcollect, heq⟩ := h
              cases heq
              exact .collect hgate hcollect
      | own c => cases h
      | drop =>
          rw [Option.map_eq_some_iff] at h
          obtain ⟨gate, hgate, heq⟩ := h
          cases heq
          exact .abandon hgate
  | inside v route =>
      cases choice with
      | gate => cases h
      | own c =>
          rw [Option.map_eq_some_iff] at h
          obtain ⟨next, hinner, heq⟩ := h
          rcases next with v' | w
          · cases heq; exact .inner hinner
          · cases heq; exact .finish hinner
      | drop => cases h; exact .abandonInside
  | leaving w route held =>
      cases choice with
      | gate =>
          cases held with
          | zero => cases h; exact .leave
          | succ held =>
              dsimp only at h
              split at h
              · next hgate => cases h; exact .nothingBack hgate
              · next gate hgate => cases h; exact .giveBack hgate
      | own c => cases held <;> cases h
      | drop => cases held <;> cases h

end Steps

/-! ## Routes -/

namespace Route

theorem length_le (route : Route rank) : route.gates.length ≤ n := by
  have hnodup : (route.gates.map rank).Nodup :=
    List.pairwise_map.mpr (route.ordered.imp fun h => h.ne)
  have hcard := hnodup.length_le_card
  rwa [List.length_map, Fintype.card_fin] at hcard

variable [DecidableEq G] {route : Route rank} {k : ℕ} {gate g : G}

@[simp] theorem has_zero : route.has 0 g = false := by simp [has]

@[simp] theorem has_length : route.has route.gates.length g = decide (g ∈ route.gates) := by
  rw [has, List.take_length]

/-- What is held has a lower rank than what comes next. -/
theorem rank_lt_of_has (hgate : route.gates[k]? = some gate) (hg : route.has k g = true) :
    rank g < rank gate := by
  obtain ⟨hk, rfl⟩ := List.getElem?_eq_some_iff.mp hgate
  obtain ⟨i, hi, rfl⟩ := List.mem_take_iff_getElem.mp (of_decide_eq_true hg)
  exact List.pairwise_iff_getElem.mp route.ordered i k _ hk (by omega)

theorem has_gate (hgate : route.gates[k]? = some gate) : route.has k gate = false := by
  by_contra h
  rw [Bool.not_eq_false] at h
  exact lt_irrefl _ (rank_lt_of_has hgate h)

theorem has_succ (hgate : route.gates[k]? = some gate) :
    route.has (k + 1) g = (route.has k g || decide (g = gate)) := by
  simp [has, List.take_add_one, hgate]

theorem has_succ_of_none (hgate : route.gates[k]? = none) :
    route.has (k + 1) g = route.has k g := by
  simp [has, List.take_add_one, hgate]

theorem has_of_none (hgate : route.gates[k]? = none) :
    route.has k g = route.has route.gates.length g := by
  rw [has_length, has, List.take_of_length_le (List.getElem?_eq_none_iff.mp hgate)]

end Route

/-! ## The permits -/

section Permits

variable [DecidableEq G] {b : Behaviour rank W V C} {capacity : G → ℕ}

/-- A move changes the permits of a gate that are out as it changes what the mover holds. -/
theorem Moves.balanced {tid held : ℕ} {choice : Choice C} {t t' : Task rank W V}
    {s s' : G → Semaphore ℕ} {g : G} (h : Moves b tid s choice t t' s')
    (hs : (s g).Balanced (capacity g) held)
    (hpos : t.holds g = true → 0 < held) :
    ∃ held', (s' g).Balanced (capacity g) held' ∧
      held' + (if t.holds g then 1 else 0) = held + (if t'.holds g then 1 else 0) := by
  -- one more gate is held afterwards, and its semaphore has given out one more permit
  have hmore : ∀ {route : Route rank} {k : ℕ} {gate : G} {sem : Semaphore ℕ},
      route.gates[k]? = some gate →
      (∀ held, (s gate).Balanced (capacity gate) held → sem.Balanced (capacity gate) (held + 1)) →
      ∃ held', (Function.update s gate sem g).Balanced (capacity g) held' ∧
        held' + (if route.has k g then 1 else 0) =
          held + (if route.has (k + 1) g then 1 else 0) := by
    intro route k gate sem hgate hsem
    rw [Route.has_succ hgate]
    by_cases hsame : g = gate
    · subst hsame
      refine ⟨held + 1, by rw [Function.update_self]; exact hsem held hs, ?_⟩
      simp [Route.has_gate hgate]
    · exact ⟨held, by rw [Function.update_of_ne hsame]; exact hs, by simp [hsame]⟩
  -- the semaphore of a gate changes, and what is held does not
  have hsame : ∀ {gate : G} {sem : Semaphore ℕ},
      (∀ held, (s gate).Balanced (capacity gate) held → sem.Balanced (capacity gate) held) →
      (Function.update s gate sem g).Balanced (capacity g) held := by
    intro gate sem hsem
    by_cases hsame : g = gate
    · subst hsame
      rw [Function.update_self]
      exact hsem held hs
    · rw [Function.update_of_ne hsame]
      exact hs
  -- nothing changes for this gate
  have hkeep : t.holds g = t'.holds g → held + (if t.holds g then 1 else 0) =
      held + (if t'.holds g then 1 else 0) := fun heq => by rw [heq]
  cases h with
  | pass hgate hacquire => exact hmore hgate fun _ hbal => hbal.acquire hacquire
  | collect hgate hcollect => exact hmore hgate fun _ hbal => hbal.collect hcollect
  | queue hgate hacquire => exact ⟨held, hsame fun _ hbal => hbal.acquire hacquire, rfl⟩
  | abandon hgate => exact ⟨held, hsame fun _ hbal => hbal.abandon tid, rfl⟩
  | arrive ht hgate =>
      refine ⟨held, hs, hkeep ?_⟩
      rcases ht with rfl | rfl <;> exact Route.has_of_none hgate
  | @giveBack w route k gate hgate =>
      have hbefore : (Task.leaving w route (k + 1) : Task rank W V).holds g =
          (route.has k g || decide (g = gate)) := Route.has_succ hgate
      by_cases hg : g = gate
      · subst hg
        obtain ⟨rest, rfl⟩ := Nat.exists_eq_succ_of_ne_zero (hpos (by simp [hbefore])).ne'
        refine ⟨rest, by rw [Function.update_self]; exact hs.release, ?_⟩
        have hafter : (Task.leaving w route k : Task rank W V).holds g = false :=
          Route.has_gate hgate
        simp [hbefore, hafter]
      · refine ⟨held, by rw [Function.update_of_ne hg]; exact hs, hkeep ?_⟩
        rw [hbefore, decide_eq_false hg, Bool.or_false]
        rfl
  | nothingBack hgate => exact ⟨held, hs, hkeep (Route.has_succ_of_none hgate)⟩
  | enter _ => exact ⟨held, hs, hkeep Route.has_zero.symm⟩
  | leave => exact ⟨held, hs, hkeep Route.has_zero⟩
  | outer _ | drop _ | inner _ | finish _ | abandonInside => exact ⟨held, hs, rfl⟩

theorem holds_of_start {t : Task rank W V} (h : t.start b = true) (g : G) : t.holds g = false := by
  cases t with
  | outside w => rfl
  | _ => cases h

/-- **Permits are neither lost nor made up.**  The tasks that hold a gate are what its
semaphore has given out. -/
theorem balanced_account (capacity : G → ℕ) (g : G) :
    (machine b).Account (fun s held => (s g).Balanced (capacity g) held) (Task.holds g) where
  start := fun h => holds_of_start h g
  move := fun hs hpos hmove => (moves_of_move hmove).balanced hs hpos

/-! ## Who is on a gate's list -/

/-- A list of ids before and after a step of `tid`: `tid` is on it then if it waits, and the
others are on it as before. -/
def Relisted (tid : ℕ) (before after : List ℕ) (waits : Prop) : Prop :=
  after.Nodup ∧ (tid ∈ after ↔ waits) ∧ ∀ other, other ≠ tid → (other ∈ after ↔ other ∈ before)

/-- A move changes the list of a gate as it changes where the mover waits. -/
theorem Moves.registered {tid : ℕ} {choice : Choice C} {t t' : Task rank W V}
    {s s' : G → Semaphore ℕ} {g : G} (h : Moves b tid s choice t t' s')
    (hnodup : (s g).waiters.Nodup)
    (hentry : tid ∈ (s g).waiters ↔ t.waitsAt = some g) :
    Relisted tid (s g).waiters (s' g).waiters (t'.waitsAt = some g) := by
  -- where the list of a gate changes, it is by the mover's id
  have hchange : ∀ {gate : G} {sem : Semaphore ℕ} {now : Option G},
      (g ≠ gate → (t.waitsAt = some g ↔ now = some g)) →
      (g = gate → Relisted tid (s g).waiters sem.waiters (now = some g)) →
      Relisted tid (s g).waiters (Function.update s gate sem g).waiters (now = some g) := by
    intro gate sem now helse hthere
    by_cases hg : g = gate
    · have h := hthere hg
      subst hg
      rwa [Function.update_self]
    · rw [Function.update_of_ne hg]
      exact ⟨hnodup, hentry.trans (helse hg), fun _ _ => Iff.rfl⟩
  -- an id that is taken off the list is not on it a second time
  have hgone : ∀ {gate : G} {sem : Semaphore ℕ}, t.waitsAt = some gate →
      (g = gate → (s g).waiters.Perm (tid :: sem.waiters)) →
      Relisted tid (s g).waiters (Function.update s gate sem g).waiters (none = some g) := by
    intro gate sem hbefore htaken
    refine hchange (fun hg => ?_) fun hg => ?_
    · rw [hbefore]
      exact ⟨fun h => absurd (Option.some.inj h).symm hg, fun h => (by cases h)⟩
    · have hperm := htaken hg
      obtain ⟨hnot, hrest⟩ := List.nodup_cons.mp (hperm.nodup_iff.mp hnodup)
      refine ⟨hrest, ⟨fun hmem => absurd hmem hnot, fun h => (by cases h)⟩, fun other hne => ?_⟩
      rw [hperm.mem_iff, List.mem_cons, or_iff_right hne]
  cases h with
  | @pass v route k gate sem hgate hacquire =>
      refine hchange (fun _ => Iff.rfl) fun hg => ?_
      subst hg
      have hperm : sem.waiters.Perm (s g).waiters := Semaphore.acquire_waiters_perm hacquire
      exact ⟨hperm.nodup_iff.mpr hnodup, hperm.mem_iff.trans hentry, fun _ _ => hperm.mem_iff⟩
  | @queue v route k gate sem hgate hacquire =>
      have hnow : (Task.queued v route k : Task rank W V).waitsAt = some gate := hgate
      refine hchange (fun hg => ?_) fun hg => ?_
      · rw [hnow]
        exact ⟨fun h => (by cases h), fun h => absurd (Option.some.inj h).symm hg⟩
      · subst hg
        have hperm : sem.waiters.Perm (tid :: (s g).waiters) :=
          Semaphore.acquire_waiters_perm hacquire
        have hnew : tid ∉ (s g).waiters := fun hmem => (by cases hentry.mp hmem)
        refine ⟨hperm.nodup_iff.mpr (List.nodup_cons.mpr ⟨hnew, hnodup⟩), ?_, fun other hne => ?_⟩
        · simp [hperm.mem_iff, hnow]
        · rw [hperm.mem_iff, List.mem_cons, or_iff_right hne]
  | @collect v route k gate sem hgate hcollect =>
      exact hgone hgate fun hg => by
        subst hg
        exact Semaphore.collect_waiters_perm hcollect
  | @abandon v route k gate hgate =>
      exact hgone hgate fun hg => by
        subst hg
        exact Semaphore.abandon_waiters_perm (hentry.mpr hgate)
  | @giveBack w route k gate hgate =>
      refine hchange (fun _ => Iff.rfl) fun hg => ?_
      subst hg
      have hperm := (s g).release_waiters_perm
      exact ⟨hperm.nodup_iff.mpr hnodup, hperm.mem_iff.trans hentry, fun _ _ => hperm.mem_iff⟩
  | @arrive v route t k ht hgate =>
      refine ⟨hnodup, hentry.trans ?_, fun _ _ => Iff.rfl⟩
      rcases ht with rfl | rfl
      · exact Iff.rfl
      · simp [Task.waitsAt, hgate]
  | outer _ | enter _ | drop _ | inner _ | finish _ | abandonInside | nothingBack _ | leave =>
      exact ⟨hnodup, hentry, fun _ _ => Iff.rfl⟩

/-- Each gate lists exactly the tasks that wait at it, each once. -/
theorem waiting_register :
    (machine b).Register (fun s => ∀ g, (s g).waiters.Nodup) (fun s tid g => tid ∈ (s g).waiters)
      (fun t g => t.waitsAt = some g) (fun _ => False) where
  start := by
    intro t hstart
    cases t with
    | outside w => funext g; simp [Task.waitsAt]
    | _ => cases hstart
  own := by
    intro s s' tid t t' choice hs hentry hmove
    have h := fun g => (moves_of_move hmove).registered (hs g) (iff_of_eq (congrFun hentry g))
    exact ⟨fun g => (h g).1, funext fun g => propext (h g).2.1⟩
  others := by
    intro s s' tid t t' choice other hs hentry hmove hne
    funext g
    exact propext (((moves_of_move hmove).registered (hs g)
      (iff_of_eq (congrFun hentry g))).2.2 other hne)

/-- The gates' books are right: permits and lists. -/
structure Orderly (capacity : G → ℕ) (team : Team (G → Semaphore ℕ) (Task rank W V)) : Prop where
  balanced : ∀ g, (team.shared g).Balanced (capacity g) (team.threads.countP (Task.holds g))
  registered : Machine.Registered (fun s => ∀ g, (s g).waiters.Nodup)
    (fun s tid g => tid ∈ (s g).waiters) (fun t g => t.waitsAt = some g) (fun _ => False) team

theorem Orderly.init (capacity : G → ℕ) :
    Orderly capacity ⟨fun g => .new (capacity g), ([] : List (Task rank W V))⟩ where
  balanced := fun g => .new (capacity g)
  registered := ⟨fun _ => List.nodup_nil, fun _ => funext fun _ => by
    simp [Semaphore.waiters, Semaphore.new]⟩

theorem Orderly.run {team team' : Team (G → Semaphore ℕ) (Task rank W V)}
    {steps : List (Step (Task rank W V) (Choice C))} (h : Orderly capacity team)
    (hrun : (machine b).run team steps = some team') : Orderly capacity team' :=
  ⟨fun g => (balanced_account capacity g).run (h.balanced g) hrun,
    waiting_register.run h.registered hrun⟩

theorem Orderly.mem_waiters_iff {team : Team (G → Semaphore ℕ) (Task rank W V)}
    (h : Orderly capacity team) {tid : ℕ} {g : G} :
    tid ∈ (team.shared g).waiters ↔
      ∃ t, team.threads[tid]? = some t ∧ t.waitsAt = some g := by
  rw [iff_of_eq (congrFun (h.registered.entries tid) g)]
  cases team.threads[tid]? <;> simp

/-- When every task is outside, every permit is free and nobody waits. -/
theorem Orderly.all_free {team : Team (G → Semaphore ℕ) (Task rank W V)}
    (h : Orderly capacity team) (hout : ∀ t ∈ team.threads, t.isOutside = true) (g : G) :
    team.shared g = .new (capacity g) := by
  have hheld : team.threads.countP (Task.holds g) = 0 := by
    refine List.countP_eq_zero.mpr fun t ht => ?_
    have hplace := hout t ht
    cases t with
    | outside w => simp [Task.holds]
    | _ => cases hplace
  have hnone : (team.shared g).waiters = [] := by
    refine List.eq_nil_iff_forall_not_mem.mpr fun tid hmem => ?_
    obtain ⟨t, ht, hwaits⟩ := h.mem_waiters_iff.mp hmem
    have hplace := hout t (List.mem_of_getElem? ht)
    cases t with
    | outside w => cases hwaits
    | _ => cases hplace
  obtain ⟨hqueue, hgranted⟩ := List.append_eq_nil_iff.mp hnone
  have htotal := (h.balanced g).total
  rw [hheld, hgranted] at htotal
  rw [Semaphore.new, ← htotal]
  cases hs : team.shared g
  simp_all

end Permits

/-! ## Nobody waits for ever -/

section Progress

variable [DecidableEq G] {b : Behaviour rank W V C} {capacity : G → ℕ}
  {team : Team (G → Semaphore ℕ) (Task rank W V)}

/-- A task that is inside and whose work is stalled. -/
def Task.isStalled (stalled : V → Route rank → Bool) : Task rank W V → Bool
  | .inside v route => stalled v route
  | _ => false

/-- A task that can take a step without being dropped. -/
def Able (b : Behaviour rank W V C) (team : Team (G → Semaphore ℕ) (Task rank W V))
    (tid : ℕ) : Prop :=
  ∃ choice, choice ≠ .drop ∧ ((machine b).step team (.go tid choice)).isSome = true

theorem able_of_move {tid : ℕ} {t : Task rank W V} (choice : Choice C)
    (ht : team.threads[tid]? = some t) (hchoice : choice ≠ .drop)
    (hmove : (t.move b tid choice team.shared).isSome = true) : Able b team tid := by
  refine ⟨choice, hchoice, ?_⟩
  simp only [Machine.step, ht, machine, Option.isSome_map, hmove]

/-- On the way in or out a task is stopped only while it has not been granted a permit. -/
theorem able_or_waits {tid : ℕ} {t : Task rank W V} (ht : team.threads[tid]? = some t)
    (hout : t.isOutside = false) (hin : ∀ v route, t ≠ .inside v route) :
    Able b team tid ∨ ∃ g, t.waitsAt = some g ∧ tid ∉ (team.shared g).granted := by
  cases t with
  | outside w => cases hout
  | inside v route => exact absurd rfl (hin v route)
  | entering v route passed =>
      refine .inl (able_of_move .gate ht (by simp) ?_)
      unfold Task.move
      dsimp only
      split
      · rfl
      · split <;> rfl
  | leaving w route held =>
      refine .inl (able_of_move .gate ht (by simp) ?_)
      unfold Task.move
      cases held with
      | zero => rfl
      | succ held =>
          dsimp only
          split <;> rfl
  | queued v route passed =>
      cases hgate : route.gates[passed]? with
      | none =>
          refine .inl (able_of_move .gate ht (by simp) ?_)
          simp [Task.move, hgate]
      | some gate =>
          by_cases hgranted : tid ∈ (team.shared gate).granted
          · refine .inl (able_of_move .gate ht (by simp) ?_)
            simp [Task.move, hgate, Semaphore.collect, hgranted]
          · exact .inr ⟨gate, hgate, hgranted⟩

/-- A task inside is stopped only by its own work. -/
theorem able_of_inner {tid : ℕ} {v : V} {route : Route rank} {c : C}
    (ht : team.threads[tid]? = some (.inside v route)) (hc : (b.inner v c).isSome = true) :
    Able b team tid := by
  refine able_of_move (.own c) ht (by simp) ?_
  simp only [Task.move, Option.isSome_map, hc]

/-- **A waiting task does not wait for ever on the others.**  Some tasks inside may be
stalled.  Take gates `U` such that whoever holds one of them waits, if at all, at another of
them; if the stalled tasks leave a permit of each, then as long as somebody waits at one of
them some task that is not stalled can move. -/
theorem exists_able_of_waiting (stalled : V → Route rank → Bool) (U : G → Prop)
    (h : Orderly capacity team)
    (hinside : ∀ v route, stalled v route = false → ∃ c, (b.inner v c).isSome = true)
    (hclosed : ∀ t ∈ team.threads, ∀ g g', U g → t.holds g = true → t.waitsAt = some g' → U g')
    (hroom : ∀ g, U g →
      team.threads.countP (fun t => t.isStalled stalled && t.holds g) < capacity g)
    (hwaiting : ∃ t ∈ team.threads, ∃ g, t.waitsAt = some g ∧ U g) :
    ∃ tid t, team.threads[tid]? = some t ∧ t.isStalled stalled = false ∧ Able b team tid := by
  classical
  -- of the gates in question at which somebody waits, the one of the highest rank
  obtain ⟨t₀, ht₀, g₀, hwaits₀, hU₀⟩ := hwaiting
  have hmem : ∀ g, g ∈ ((team.threads.filterMap Task.waitsAt).toFinset.filter U) ↔
      (∃ t ∈ team.threads, t.waitsAt = some g) ∧ U g := by
    intro g
    rw [Finset.mem_filter, List.mem_toFinset, List.mem_filterMap]
  obtain ⟨g, hg, hhighest⟩ := Finset.exists_max_image _ rank
    ⟨g₀, (hmem g₀).mpr ⟨⟨t₀, ht₀, hwaits₀⟩, hU₀⟩⟩
  obtain ⟨⟨t, ht, hwaits⟩, hU⟩ := (hmem g).mp hg
  by_cases hgranted : (team.shared g).granted = []
  · -- every permit is out, and not all of them with the stalled tasks
    have hqueue : (team.shared g).queue ≠ [] := by
      obtain ⟨tid, htid⟩ := List.getElem?_of_mem ht
      have hlisted := h.mem_waiters_iff.mpr ⟨t, htid, hwaits⟩
      rw [Semaphore.waiters, hgranted, List.append_nil] at hlisted
      exact List.ne_nil_of_mem hlisted
    have hout : ¬ team.threads.countP (Task.holds g) < capacity g :=
      fun hless => (h.balanced g).granted_of_queue hqueue hless hgranted
    have hfree : ∃ u ∈ team.threads, u.holds g = true ∧ u.isStalled stalled = false := by
      by_contra hall
      push Not at hall
      have hle : team.threads.countP (Task.holds g) ≤
          team.threads.countP fun t => t.isStalled stalled && t.holds g := by
        refine List.countP_mono_left fun u hu hholds => ?_
        have hst : u.isStalled stalled = true := by simpa using hall u hu hholds
        rw [hst, hholds]
        rfl
      exact hout (lt_of_le_of_lt hle (hroom g hU))
    obtain ⟨u, hu, hholds, hrunning⟩ := hfree
    obtain ⟨uid, huid⟩ := List.getElem?_of_mem hu
    refine ⟨uid, u, huid, hrunning, ?_⟩
    cases u with
    | inside v route =>
        obtain ⟨c, hc⟩ := hinside v route hrunning
        exact able_of_inner huid hc
    | outside w => cases hholds
    | entering v route passed =>
        refine (able_or_waits huid rfl fun _ _ h => by cases h).resolve_right ?_
        rintro ⟨_, hgate, -⟩
        cases hgate
    | leaving w route held =>
        refine (able_or_waits huid rfl fun _ _ h => by cases h).resolve_right ?_
        rintro ⟨_, hgate, -⟩
        cases hgate
    | queued v route passed =>
        refine (able_or_waits huid rfl fun _ _ h => by cases h).resolve_right ?_
        rintro ⟨gate, hgate, -⟩
        -- it would wait at a gate of a higher rank
        have hlt : rank g < rank gate := Route.rank_lt_of_has hgate hholds
        have hle := hhighest gate
          ((hmem gate).mpr ⟨⟨_, hu, hgate⟩, hclosed _ hu g gate hU hholds hgate⟩)
        exact absurd hlt (not_lt.mpr hle)
  · -- somebody has been granted a permit and has only to take it
    obtain ⟨tid, htid⟩ := List.exists_mem_of_ne_nil _ hgranted
    obtain ⟨u, hu, hgate⟩ := h.mem_waiters_iff.mp
      (List.mem_append_right (team.shared g).queue htid)
    cases u with
    | queued v route passed =>
        refine ⟨tid, _, hu, rfl, able_of_move .gate hu (by simp) ?_⟩
        have hgate' : route.gates[passed]? = some g := hgate
        simp [Task.move, hgate', Semaphore.collect, htid]
    | _ => cases hgate

/-- **When nothing moves, all is done.**  With a permit at every gate, and work inside that
does not get stuck by itself, a team in which nobody can move is one of tasks that have
nothing left to do outside; and then every permit is free. -/
theorem all_outside_of_still (h : Orderly capacity team) (hcapacity : ∀ g, 0 < capacity g)
    (hinside : ∀ v, ∃ c, (b.inner v c).isSome = true) (hstill : ∀ tid, ¬ Able b team tid) :
    (∀ t ∈ team.threads, ∃ w, t = .outside w ∧ ∀ c, b.outer w c = none) ∧
      ∀ g, team.shared g = .new (capacity g) := by
  have hout : ∀ t ∈ team.threads, t.isOutside = true := by
    intro t ht
    obtain ⟨tid, htid⟩ := List.getElem?_of_mem ht
    by_contra hplace
    have hin : ∀ v route, t ≠ .inside v route := by
      rintro v route rfl
      obtain ⟨c, hc⟩ := hinside v
      exact hstill tid (able_of_inner htid hc)
    rcases able_or_waits htid (by simpa using hplace) hin with hable | ⟨g, hwaits, -⟩
    · exact hstill tid hable
    · -- nobody is stalled
      have hroom : ∀ g, True →
          team.threads.countP (fun t => t.isStalled (fun _ _ => false) && t.holds g) <
            capacity g := by
        intro g _
        have hnone : team.threads.countP
            (fun t => t.isStalled (fun _ _ => false) && t.holds g) = 0 :=
          List.countP_eq_zero.mpr fun t _ => by cases t <;> simp [Task.isStalled]
        rw [hnone]
        exact hcapacity g
      obtain ⟨uid, -, -, -, hable⟩ := exists_able_of_waiting (fun _ _ => false) (fun _ => True) h
        (fun v _ _ => hinside v) (fun _ _ _ _ _ _ _ => trivial) hroom
        ⟨t, ht, g, hwaits, trivial⟩
      exact hstill uid hable
  refine ⟨fun t ht => ?_, h.all_free hout⟩
  obtain ⟨tid, htid⟩ := List.getElem?_of_mem ht
  have hplace := hout t ht
  cases t with
  | outside w =>
      refine ⟨w, rfl, fun c => ?_⟩
      by_contra hmoves
      refine hstill tid (able_of_move (.own c) htid (by simp) ?_)
      simp only [Task.move, Option.isSome_map, Option.isSome_iff_ne_none]
      exact hmoves
  | _ => cases hplace

end Progress

/-! ## Every task comes to an end -/

section Cost

variable [DecidableEq G] {b : Behaviour rank W V C}

/-- The steps of a task's own are bounded: it has `out w` left outside and `inn v` inside. -/
structure Behaviour.Bounded (b : Behaviour rank W V C) (out : W → ℕ) (inn : V → ℕ) : Prop where
  outer : ∀ {w c w'}, b.outer w c = some (.inl w') → out w' < out w
  enter : ∀ {w c v route}, b.outer w c = some (.inr (v, route)) → inn v < out w
  inner : ∀ {v c v'}, b.inner v c = some (.inl v') → inn v' < inn v
  finish : ∀ {v c w}, b.inner v c = some (.inr w) → out w ≤ inn v
  drop : ∀ {w w'}, b.drop w = some w' → out w' < out w
  abandon : ∀ v, out (b.abandon v) ≤ inn v

/-- The steps a task can still take, those at the gates included: two for each gate on the way
in, one on the way out. -/
def Task.cost (out : W → ℕ) (inn : V → ℕ) : Task rank W V → ℕ
  | .outside w => out w * (3 * n + 5)
  | .entering v _ passed => inn v * (3 * n + 5) + (n + 2) + 2 * (n - passed) + 2
  | .queued v _ passed => inn v * (3 * n + 5) + (n + 2) + 2 * (n - passed) + 1
  | .inside v _ => inn v * (3 * n + 5) + (n + 2)
  | .leaving w _ held => out w * (3 * n + 5) + held + 1

theorem cost_lt_of_move {out : W → ℕ} {inn : V → ℕ} (hb : b.Bounded out inn) {tid : ℕ}
    {t t' : Task rank W V} {choice : Choice C} {s s' : G → Semaphore ℕ}
    (hmove : (machine b).move tid t choice s = some (t', s')) :
    t'.cost out inn < t.cost out inn := by
  have hless : ∀ {a c : ℕ}, a < c → a * (3 * n + 5) + (3 * n + 5) ≤ c * (3 * n + 5) := by
    intro a c h
    rw [← Nat.succ_mul]
    exact Nat.mul_le_mul_right _ h
  have hle : ∀ {a c : ℕ}, a ≤ c → a * (3 * n + 5) ≤ c * (3 * n + 5) := fun h =>
    Nat.mul_le_mul_right _ h
  have hpassed : ∀ {route : Route rank} {k : ℕ} {gate : G}, route.gates[k]? = some gate →
      k < n := fun hgate =>
    lt_of_lt_of_le (List.getElem?_eq_some_iff.mp hgate).1 (Route.length_le _)
  cases moves_of_move hmove with
  | outer h =>
      have := hless (hb.outer h)
      simp only [Task.cost]
      omega
  | enter h =>
      have := hless (hb.enter h)
      simp only [Task.cost]
      omega
  | drop h =>
      have := hless (hb.drop h)
      simp only [Task.cost]
      omega
  | inner h =>
      have := hless (hb.inner h)
      simp only [Task.cost]
      omega
  | @finish v w route c h =>
      have hout := hle (hb.finish h)
      have hlen := route.length_le
      simp only [Task.cost]
      omega
  | @abandonInside v route =>
      have hout := hle (hb.abandon v)
      have hlen := route.length_le
      simp only [Task.cost]
      omega
  | @abandon v route passed gate hgate =>
      have hout := hle (hb.abandon v)
      have hlen := hpassed hgate
      simp only [Task.cost]
      omega
  | arrive ht hgate =>
      rcases ht with rfl | rfl <;> simp only [Task.cost] <;> omega
  | pass hgate _ =>
      have hlen := hpassed hgate
      simp only [Task.cost]
      omega
  | collect hgate _ =>
      have hlen := hpassed hgate
      simp only [Task.cost]
      omega
  | queue _ _ | giveBack _ | nothingBack _ | leave =>
      simp only [Task.cost]
      omega

end Cost

end Gated
