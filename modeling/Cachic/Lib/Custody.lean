import Cachic.Lib.Program
import Cachic.Lib.Team

/-!
# Programs with something in hand

The assertions of `Cachic.Lib.Interleaving` are about a history that only grows.  They cannot
say that a task *holds* something: a permit or a claim that is its own until it gives it
back.  Here what a task has in hand is a value of a type `K`.  A `Custody` says which
actions a task may perform with `k` in hand and what it has in hand after each answer, and
ties every `k` to the shared state and the number of the task that has it.

* `inv` is what the shared state and the log of all actions satisfy;
* `holds w tid k` is what it means that task `tid` has `k` in hand;
* `own` is the obligation of the task that acts, `others` that it takes nothing out of
  another's hand;
* `dropped` is the obligation of a task that ends by force, wherever it may be dropped.

`Custody.wp` is the weakest precondition of a program under these rules, and
`Custody.Follows.run` says that a team whose tasks have one keeps the rules in every run,
in every order and with every pattern of drops.
-/

namespace ActionLang

open ThreadTeam

variable {A : Type} {R : A → Type} {S C K O α β : Type}

/-- A shared state and everything that was done to it, newest first. -/
structure Logged (A : Type) (R : A → Type) (S : Type) where
  shared : S
  log : List (Event A R)

/-- How numbered tasks act on a shared state.  `drop tid a` is what becomes of it when task
`tid` is dropped before it performs `a`; `none` where no task can be dropped. -/
structure World (A : Type) (R : A → Type) (S C : Type) where
  exec : ℕ → (a : A) → C → S → Option (R a × S)
  drop : ℕ → A → S → Option S

namespace World

/-- The tasks of a world, those that were dropped being `none`.  A move performs the next
action under a choice, or drops the task. -/
def machine (m : World A R S C) (O : Type) :
    Machine (Logged A R S) (Option (Prog A R O)) (Option C) where
  start := Option.isSome
  move := fun tid task choice w =>
    match task, choice with
    | some (.act a next), some c => (m.exec tid a c w.shared).map fun r =>
        (some (next r.1), { shared := r.2, log := ⟨a, r.1⟩ :: w.log })
    | some (.act a _), none =>
        (m.drop tid a w.shared).map fun s' => (none, { w with shared := s' })
    | _, _ => none

variable {m : World A R S C}

/-- What a move can do, guards included. -/
theorem move_cases {tid : ℕ} {task task' : Option (Prog A R O)} {choice : Option C}
    {w w' : Logged A R S} (h : (m.machine O).move tid task choice w = some (task', w')) :
    ∃ a next, task = some (.act a next) ∧
      ((∃ c r s', choice = some c ∧ m.exec tid a c w.shared = some (r, s') ∧
          task' = some (next r) ∧ w' = { shared := s', log := ⟨a, r⟩ :: w.log }) ∨
        ∃ s', choice = none ∧ m.drop tid a w.shared = some s' ∧ task' = none ∧
          w' = { w with shared := s' }) := by
  simp only [machine] at h
  split at h
  · next a next c =>
      simp only [Option.map_eq_some_iff, Prod.mk.injEq] at h
      obtain ⟨⟨r, s'⟩, hexec, rfl, rfl⟩ := h
      exact ⟨a, next, rfl, .inl ⟨c, r, s', rfl, hexec, rfl, rfl⟩⟩
  · next a next =>
      simp only [Option.map_eq_some_iff, Prod.mk.injEq] at h
      obtain ⟨s', hdrop, rfl, rfl⟩ := h
      exact ⟨a, next, rfl, .inr ⟨s', rfl, hdrop, rfl, rfl⟩⟩
  · cases h

/-- What is logged stays logged. -/
theorem log_subset_of_step {team team' : Team (Logged A R S) (Option (Prog A R O))}
    {st : Step (Option (Prog A R O)) (Option C)}
    (h : (m.machine O).step team st = some team') : team.shared.log ⊆ team'.shared.log := by
  cases st with
  | spawn task =>
      obtain ⟨-, rfl⟩ := Machine.step_spawn_iff.mp h
      exact List.Subset.refl _
  | go tid choice =>
      obtain ⟨task, task', w', -, hmove, rfl⟩ := Machine.step_go_iff.mp h
      obtain ⟨a, next, -, ⟨c, r, s', -, -, -, rfl⟩ | ⟨s', -, -, -, rfl⟩⟩ := move_cases hmove
      · exact List.subset_cons_self _ _
      · exact List.Subset.refl _

theorem log_subset_of_run {team team' : Team (Logged A R S) (Option (Prog A R O))}
    {steps : List (Step (Option (Prog A R O)) (Option C))}
    (h : (m.machine O).run team steps = some team') : team.shared.log ⊆ team'.shared.log :=
  Machine.run_induct (I := fun now => team.shared.log ⊆ now.shared.log)
    (fun _ _ _ hsub hstep => List.Subset.trans hsub (log_subset_of_step hstep))
    (List.Subset.refl _) h

end World

/-- What tasks may have in hand, and how their actions change it.  See the module
comment. -/
structure Custody (m : World A R S C) (K : Type) where
  /-- Nothing in hand. -/
  idle : K
  /-- What a task may do with `k` in hand. -/
  may : K → A → Prop
  /-- What it may have in hand after an answer. -/
  leads : K → (a : A) → R a → K → Prop
  /-- The actions under consideration. -/
  admits : A → Prop
  inv : Logged A R S → Prop
  holds : Logged A R S → ℕ → K → Prop
  own : ∀ {w : Logged A R S} {tid : ℕ} {k : K} {a : A} {c : C} {r : R a} {s' : S},
    inv w → holds w tid k → may k a → admits a → m.exec tid a c w.shared = some (r, s') →
      inv { shared := s', log := ⟨a, r⟩ :: w.log } ∧
        ∃ k', leads k a r k' ∧ holds { shared := s', log := ⟨a, r⟩ :: w.log } tid k'
  others : ∀ {w : Logged A R S} {tid other : ℕ} {k u : K} {a : A} {c : C} {r : R a} {s' : S},
    inv w → holds w tid k → may k a → admits a → m.exec tid a c w.shared = some (r, s') →
      other ≠ tid → holds w other u → holds { shared := s', log := ⟨a, r⟩ :: w.log } other u
  dropped : ∀ {w : Logged A R S} {tid : ℕ} {k : K} {a : A} {s' : S},
    inv w → holds w tid k → may k a → m.drop tid a w.shared = some s' →
      inv { w with shared := s' } ∧
        ∀ other u, other ≠ tid → holds w other u → holds { w with shared := s' } other u

namespace Custody

variable {m : World A R S C} (D : Custody m K)

/-- The weakest precondition of a program, in terms of what is in hand. -/
def wp : Prog A R α → (K → α → Prop) → K → Prop
  | .ret value, Q, k => Q k value
  | .act a next, Q, k => D.may k a ∧ ∀ r k', D.leads k a r k' → wp (next r) Q k'

variable {D}

theorem wp_bind (p : Prog A R α) (f : α → Prog A R β) (Q : K → β → Prop) (k : K) :
    D.wp (p >>= f) Q k ↔ D.wp p (fun k' value => D.wp (f value) Q k') k := by
  induction p generalizing k with
  | ret value => rfl
  | act a next ih =>
      rw [Prog.act_bind, wp, wp]
      exact and_congr_right fun _ => forall_congr' fun r => forall_congr' fun k' =>
        imp_congr_right fun _ => ih r k'

theorem wp_conseq {p : Prog A R α} {Q Q' : K → α → Prop} {k : K} (hp : D.wp p Q k)
    (hQ : ∀ k' value, Q k' value → Q' k' value) : D.wp p Q' k := by
  induction p generalizing k with
  | ret value => exact hQ k value hp
  | act a next ih => exact ⟨hp.1, fun r k' hleads => ih r (hp.2 r k' hleads)⟩

/-- Sequencing, in the form proofs apply. -/
theorem wp_bind_of {p : Prog A R α} {f : α → Prog A R β} {M : K → α → Prop}
    {Q : K → β → Prop} {k : K} (hp : D.wp p M k)
    (hf : ∀ k' value, M k' value → D.wp (f value) Q k') : D.wp (p >>= f) Q k :=
  (wp_bind p f Q k).mpr (wp_conseq hp hf)

/-- One action at the head of a program. -/
theorem wp_perform_bind {a : A} {f : R a → Prog A R β} {Q : K → β → Prop} {k : K}
    (hmay : D.may k a) (hnext : ∀ r k', D.leads k a r k' → D.wp (f r) Q k') :
    D.wp (.perform a >>= f) Q k := ⟨hmay, hnext⟩

/-- A program whose actions leave the hand as it is. -/
theorem wp_of_within {p : Prog A R α} {P : A → Prop} {L : (a : A) → R a → Prop} {k : K}
    (hp : p.Within P L)
    (hkeep : ∀ a, P a → D.may k a ∧ ∀ r k', D.leads k a r k' → k' = k ∧ L a r) :
    D.wp p (fun k' _ => k' = k) k := by
  induction p with
  | ret value => rfl
  | act a next ih =>
      obtain ⟨hmay, hleads⟩ := hkeep a hp.1
      refine ⟨hmay, fun r k' hk' => ?_⟩
      obtain ⟨rfl, hlearn⟩ := hleads r k' hk'
      exact ih r (hp.2 r hlearn)

theorem wp_of_all {p : Prog A R α} {P : A → Prop} {k : K} (hp : p.All P)
    (hkeep : ∀ a, P a → D.may k a ∧ ∀ r k', D.leads k a r k' → k' = k) :
    D.wp p (fun k' _ => k' = k) k :=
  wp_of_within (L := fun _ _ => True) (hp.within fun _ h => h) fun a ha =>
    ⟨(hkeep a ha).1, fun r k' hk' => ⟨(hkeep a ha).2 r k' hk', trivial⟩⟩

/-! ## Teams -/

variable (D) in
/-- Every task, wherever it stands, has something in hand with which the rest of it is
safe.  A task that has not started has nothing. -/
structure Follows (Q : K → O → Prop) (team : Team (Logged A R S) (Option (Prog A R O))) :
    Prop where
  inv : D.inv team.shared
  task : ∀ {tid p}, team.threads[tid]? = some (some p) →
    ∃ k, D.holds team.shared tid k ∧ D.wp p Q k
  unborn : ∀ {tid}, team.threads[tid]? = none → D.holds team.shared tid D.idle

variable {Q : K → O → Prop} {team team' : Team (Logged A R S) (Option (Prog A R O))}

theorem Follows.spawn (h : D.Follows Q team) {task : Option (Prog A R O)}
    (htask : ∀ p, task = some p → D.wp p Q D.idle) :
    D.Follows Q { team with threads := team.threads ++ [task] } := by
  refine ⟨h.inv, fun {tid p} hp => ?_, fun {tid} hnone => ?_⟩
  · rcases lt_or_ge tid team.threads.length with hlt | hge
    · rw [List.getElem?_append_left hlt] at hp
      exact h.task hp
    · have hnew := List.mem_of_getElem? (List.getElem?_append_right hge ▸ hp)
      exact ⟨D.idle, h.unborn (List.getElem?_eq_none hge),
        htask p (List.mem_singleton.mp hnew).symm⟩
  · rw [List.getElem?_eq_none_iff, List.length_append] at hnone
    exact h.unborn (List.getElem?_eq_none (by omega))

/-- One move, of whichever task, with what the others have in hand left alone. -/
theorem Follows.set (h : D.Follows Q team) {tid : ℕ} {task' : Option (Prog A R O)}
    {w' : Logged A R S} (htid : ∃ t, team.threads[tid]? = some t) (hinv : D.inv w')
    (hown : ∀ p, task' = some p → ∃ k, D.holds w' tid k ∧ D.wp p Q k)
    (hothers : ∀ other u, other ≠ tid → D.holds team.shared other u → D.holds w' other u) :
    D.Follows Q { shared := w', threads := team.threads.set tid task' } := by
  obtain ⟨t, ht⟩ := htid
  have hlt := (List.getElem?_eq_some_iff.mp ht).1
  refine ⟨hinv, fun {other p} hp => ?_, fun {other} hnone => ?_⟩
  · by_cases heq : other = tid
    · subst heq
      rw [List.getElem?_set_self hlt] at hp
      exact hown p (Option.some.inj hp)
    · rw [List.getElem?_set_ne (Ne.symm heq)] at hp
      obtain ⟨k, hk, hwp⟩ := h.task hp
      exact ⟨k, hothers other k heq hk, hwp⟩
  · rw [List.getElem?_eq_none_iff, List.length_set] at hnone
    exact hothers other D.idle (by omega) (h.unborn (List.getElem?_eq_none hnone))

theorem Follows.step (h : D.Follows Q team) {st : Step (Option (Prog A R O)) (Option C)}
    (hspawn : ∀ p, st = .spawn (some p) → D.wp p Q D.idle)
    (hstep : (m.machine O).step team st = some team')
    (hadmits : ∀ e ∈ team'.shared.log, D.admits e.1) : D.Follows Q team' := by
  cases st with
  | spawn task =>
      obtain ⟨-, rfl⟩ := Machine.step_spawn_iff.mp hstep
      exact h.spawn fun p hp => hspawn p (congrArg Step.spawn hp)
  | go tid choice =>
      obtain ⟨task, task', w', htask, hmove, rfl⟩ := Machine.step_go_iff.mp hstep
      obtain ⟨a, next, rfl, ⟨c, r, s', -, hexec, rfl, rfl⟩ | ⟨s', -, hdrop, rfl, rfl⟩⟩ :=
        World.move_cases hmove
      · obtain ⟨k, hk, hmay, hnext⟩ := h.task htask
        have hadmit : D.admits a := hadmits _ List.mem_cons_self
        obtain ⟨hinv, k', hleads, hk'⟩ := D.own h.inv hk hmay hadmit hexec
        refine h.set ⟨_, htask⟩ hinv (fun p hp => ⟨k', hk', ?_⟩) fun other u hne hu =>
          D.others h.inv hk hmay hadmit hexec hne hu
        exact Option.some.inj hp ▸ hnext r k' hleads
      · obtain ⟨k, hk, hmay, -⟩ := h.task htask
        obtain ⟨hinv, hothers⟩ := D.dropped h.inv hk hmay hdrop
        exact h.set ⟨_, htask⟩ hinv nofun hothers

/-- **Every run keeps the rules**, whatever order the tasks move in and whichever of them
are dropped. -/
theorem Follows.run (h : D.Follows Q team) {steps : List (Step (Option (Prog A R O)) (Option C))}
    (hspawn : ∀ p, .spawn (some p) ∈ steps → D.wp p Q D.idle)
    (hrun : (m.machine O).run team steps = some team')
    (hadmits : ∀ e ∈ team'.shared.log, D.admits e.1) : D.Follows Q team' := by
  induction steps generalizing team with
  | nil =>
      obtain rfl : team = team' := by simpa [Machine.run] using hrun
      exact h
  | cons st rest ih =>
      rw [Machine.run, Option.bind_eq_some_iff] at hrun
      obtain ⟨mid, hmid, hrest⟩ := hrun
      have hsub := World.log_subset_of_run hrest
      refine ih (h.step (fun p hp => hspawn p (hp ▸ List.mem_cons_self)) hmid
        fun e he => hadmits e (hsub he)) (fun p hp => hspawn p (List.mem_cons_of_mem st hp)) hrest

end Custody

end ActionLang
