import Cachic.Proxy.Shutdown

/-!
# A drain is always woken

A drain that finds work in flight registers for a notification, reads the count again and
only then sleeps.  A guard's drop is two steps, the decrement and then, for the last one
out, the notification; between the two nothing is in flight and nobody has been told.  The
order of the drain's own steps is what makes that harmless: whoever sleeps unnotified has
read a count above zero *after* registering, so the notification of the drop that ended it
is still to come.

`Waking` is that argument as an invariant.  `drain_completes` follows: a drain sleeps only
while a guard is alive or a notification on its way, threads that go on come to a rest
after a bounded number of steps, and at rest no guard is alive and every drain has
returned.
-/

namespace Cachic

open ThreadTeam

/-! ## Nobody sleeps through the last notification -/

/-- The invariant.  A drain has counted only notifications that were made; and if none was
made since it registered, work is in flight or the last guard is about to notify. -/
structure DrainTeam.Waking (team : DrainTeam) : Prop where
  tally : team.shared.Tally (liveGuards team)
  registered : ∀ seen, .drainer (.rechecking seen) ∈ team.threads ∨
    .drainer (.sleeping seen) ∈ team.threads → seen ≤ team.shared.notices
  waiting : .drainer (.sleeping team.shared.notices) ∈ team.threads →
    team.shared.inflight ≠ 0 ∨ .work .leaving ∈ team.threads

theorem DrainTeam.waking_init : DrainTeam.init.Waking where
  tally := DrainTeam.init_tally
  registered := fun _ h => by simp [DrainTeam.init] at h
  waiting := fun h => by simp [DrainTeam.init] at h

variable {d d' : Drain} {team team' : DrainTeam} {dr : Drainer} {choice : DrainChoice}

/-- What a drain's own step does: the shared counts stay, a registration is with the
notifications made so far, and it falls asleep only if it has read a count above zero. -/
theorem Drainer.move_cases {dr' : Drainer} (h : dr.move choice d = some (dr', d')) :
    d'.inflight = d.inflight ∧ d'.notices = d.notices ∧
      (∀ seen, dr' = .rechecking seen → seen = d.notices) ∧
      ∀ seen, dr' = .sleeping seen → dr = .rechecking seen ∧ d.inflight ≠ 0 := by
  cases dr with
  | starting | registering =>
      cases choice <;> cases h
      simp
  | checking | rechecking seen =>
      cases choice <;> cases h
      by_cases hzero : d.inflight = 0 <;> simp [hzero]
  | sleeping seen =>
      cases choice <;> simp only [Drainer.move] at h <;> split at h <;> cases h <;> simp
  | returned finished => cases choice <;> cases h

theorem Drain.notices_increment (h : d.increment = some d') :
    d'.notices = d.notices := by
  unfold increment at h
  split at h <;> cases h
  rfl

theorem Drain.notices_decrement (d : Drain) : d.decrement.notices = d.notices := by
  unfold Drain.decrement
  rfl

/-- What a step of a unit of work does to the counts. -/
theorem Work.move_cases {w w' : Work} (h : w.move d = some (w', d')) :
    (w = .leaving ∧ d'.notices = d.notices + 1) ∨
      d'.notices = d.notices ∧
        ((w = .arriving ∧ d' = d) ∨ (w = .admitted ∧ w' = .live) ∨ (w = .live ∧ w' = .leaving) ∨
          (w = .live ∧ w' = .left ∧ d.inflight ≠ 1)) := by
  cases w with
  | arriving =>
      cases h
      exact .inr ⟨rfl, .inl ⟨rfl, rfl⟩⟩
  | admitted =>
      simp only [Work.move, Option.map_eq_some_iff, Prod.mk.injEq] at h
      obtain ⟨e, hinc, rfl, rfl⟩ := h
      exact .inr ⟨Drain.notices_increment hinc, .inr (.inl ⟨rfl, rfl⟩)⟩
  | live =>
      cases h
      refine .inr ⟨Drain.notices_decrement d, .inr (.inr ?_)⟩
      by_cases hlast : d.inflight = 1
      · exact .inl ⟨rfl, if_pos hlast⟩
      · exact .inr ⟨rfl, if_neg hlast, hlast⟩
  | leaving =>
      cases h
      exact .inl ⟨rfl, rfl⟩
  | left => cases h
  | refused => cases h

/-- One step keeps the invariant, whoever moves. -/
theorem DrainTeam.Waking.step {st : Step DrainThread DrainChoice} (h : team.Waking)
    (hstep : shutdown.step team st = some team') : team'.Waking := by
  have htally : team'.shared.Tally (liveGuards team') :=
    DrainTeam.tally h.tally (Machine.run_one hstep)
  cases st with
  | spawn t =>
      obtain ⟨hstart, rfl⟩ := Machine.step_spawn_iff.mp hstep
      have hold : ∀ {u}, u ∈ team.threads ++ [t] → shutdown.start u = false → u ∈ team.threads := by
        intro u hu hnew
        rcases List.mem_append.mp hu with hmem | hmem
        · exact hmem
        · obtain rfl := List.mem_singleton.mp hmem
          rw [hstart] at hnew
          cases hnew
      refine ⟨htally, fun seen hseen => h.registered seen ?_, fun hsleeping => ?_⟩
      · exact hseen.imp (fun hu => hold hu rfl) fun hu => hold hu rfl
      · exact (h.waiting (hold hsleeping rfl)).imp_right fun hleaving =>
          List.mem_append_left _ hleaving
  | go tid choice =>
      obtain ⟨t, t', d', ht, hmove, rfl⟩ := Machine.step_go_iff.mp hstep
      rcases t with w | dr
      · simp only [shutdown, DrainThread.move, Option.map_eq_some_iff, Prod.mk.injEq] at hmove
        obtain ⟨⟨w', e⟩, hw, rfl, rfl⟩ := hmove
        -- the drains are where they were
        have hold : ∀ {dr}, .drainer dr ∈ team.threads.set tid (.work w') →
            .drainer dr ∈ team.threads := by
          intro dr hmem
          exact (List.mem_or_eq_of_mem_set hmem).resolve_right fun heq => by cases heq
        have hlt : tid < team.threads.length := (List.getElem?_eq_some_iff.mp ht).1
        have hmade : team.shared.notices ≤ e.notices := by
          rcases Work.move_cases hw with ⟨-, hnotices⟩ | ⟨hnotices, -⟩ <;> omega
        refine ⟨htally, fun seen hseen => ?_, fun hsleeping => ?_⟩
        · exact (h.registered seen (hseen.imp hold hold)).trans hmade
        · have hseen := h.registered _ (.inr (hold hsleeping))
          rcases Work.move_cases hw with ⟨-, hnotices⟩ | ⟨hnotices, hcases⟩
          · -- the notification has been made: nobody who registered before it counts it
            dsimp only at hseen
            omega
          · have hbefore := h.waiting (hnotices ▸ hold hsleeping)
            rcases hcases with ⟨rfl, rfl⟩ | ⟨rfl, rfl⟩ | ⟨rfl, rfl⟩ | ⟨rfl, rfl, hmore⟩
            · exact hbefore.imp_right fun hleaving =>
                Machine.mem_set_of_ne ht hleaving fun heq => by cases heq
            · left
              rw [htally.inflight]
              exact (List.countP_pos_iff.mpr ⟨_, List.mem_set hlt _, rfl⟩).ne'
            · exact .inr (List.mem_set hlt _)
            · -- it was not the last guard, so another is alive
              left
              have hcount : liveGuards ⟨e, team.threads.set tid (.work .left)⟩ + 1 =
                  liveGuards team + 0 := Machine.countP_set ht _
              have hbefore := h.tally.inflight
              have hafter := htally.inflight
              have halive : 0 < liveGuards team :=
                List.countP_pos_iff.mpr ⟨_, List.mem_of_getElem? ht, rfl⟩
              dsimp only at hafter ⊢
              omega
      · simp only [shutdown, DrainThread.move, Option.map_eq_some_iff, Prod.mk.injEq] at hmove
        obtain ⟨⟨dr', e⟩, hdr, rfl, rfl⟩ := hmove
        obtain ⟨hinflight, hnotices, hrechecking, hsleeps⟩ := Drainer.move_cases hdr
        have hseen : ∀ seen, .drainer (.rechecking seen) ∈ team.threads ∨
            .drainer (.sleeping seen) ∈ team.threads → seen ≤ e.notices := by
          rw [hnotices]
          exact h.registered
        refine ⟨htally, fun seen hnew => ?_, fun hnew => ?_⟩
        · rcases hnew with hmem | hmem <;>
            rcases List.mem_or_eq_of_mem_set hmem with hold | heq
          · exact hseen seen (.inl hold)
          · rw [hrechecking seen (DrainThread.drainer.inj heq).symm, hnotices]
          · exact hseen seen (.inr hold)
          · obtain ⟨rfl, -⟩ := hsleeps seen (DrainThread.drainer.inj heq).symm
            exact hseen seen (.inl (List.mem_of_getElem? ht))
        · dsimp only at hnew ⊢
          rw [hnotices] at hnew
          rw [hinflight]
          rcases List.mem_or_eq_of_mem_set hnew with hold | heq
          · exact (h.waiting hold).imp_right fun hleaving =>
              Machine.mem_set_of_ne ht hleaving fun heq => by cases heq
          · exact .inl (hsleeps _ (DrainThread.drainer.inj heq).symm).2

theorem DrainTeam.Waking.run {steps : List (Step DrainThread DrainChoice)} (h : team.Waking)
    (hrun : shutdown.run team steps = some team') : team'.Waking :=
  Machine.run_induct (fun _ _ _ hteam hstep => hteam.step hstep) h hrun

/-- A drain that sleeps unnotified has somebody to wake it. -/
theorem DrainTeam.Waking.exists_waker (h : team.Waking)
    (hsleeping : .drainer (.sleeping team.shared.notices) ∈ team.threads) :
    .work .live ∈ team.threads ∨ .work .leaving ∈ team.threads := by
  refine (h.waiting hsleeping).imp_left fun hcount => ?_
  rw [h.tally.inflight] at hcount
  obtain ⟨t, ht, hlive⟩ := List.countP_pos_iff.mp (Nat.pos_of_ne_zero hcount)
  obtain rfl : t = .work .live := by simpa [DrainThread.isLive] using hlive
  exact ht

/-! ## The threads come to a rest -/

/-- The steps a unit of work has left. -/
def Work.stepsLeft : Work → ℕ
  | .arriving => 4
  | .admitted => 3
  | .live => 2
  | .leaving => 1
  | .left => 0
  | .refused => 0

/-- The steps a drain has left until the next notification. -/
def Drainer.stepsLeft (notices : ℕ) : Drainer → ℕ
  | .starting => 5
  | .checking => 4
  | .registering => 3
  | .rechecking seen => if seen = notices then 2 else 5
  | .sleeping seen => if seen = notices then 1 else 4
  | .returned _ => 0

def DrainThread.workLeft : DrainThread → ℕ
  | .work w => w.stepsLeft
  | .drainer _ => 0

def DrainThread.drainLeft (notices : ℕ) : DrainThread → ℕ
  | .work _ => 0
  | .drainer dr => dr.stepsLeft notices

/-- A bound on the steps of a team: each step of the work can set every drain back. -/
def DrainTeam.stepsLeft (team : DrainTeam) : ℕ :=
  Machine.potential DrainThread.workLeft team.threads * (5 * team.threads.length + 1) +
    Machine.potential (DrainThread.drainLeft team.shared.notices) team.threads

theorem Work.stepsLeft_of_move {w w' : Work} (h : w.move d = some (w', d')) :
    w'.stepsLeft < w.stepsLeft := by
  cases w with
  | arriving =>
      cases h
      cases d.draining <;> decide
  | admitted =>
      simp only [Work.move, Option.map_eq_some_iff, Prod.mk.injEq] at h
      obtain ⟨e, -, rfl, -⟩ := h
      decide
  | live =>
      cases h
      by_cases hlast : d.inflight = 1 <;> simp [hlast, Work.stepsLeft]
  | leaving =>
      cases h
      decide
  | left => cases h
  | refused => cases h

theorem Drainer.stepsLeft_of_move {dr' : Drainer} (h : dr.move choice d = some (dr', d')) :
    dr'.stepsLeft d'.notices < dr.stepsLeft d.notices := by
  cases dr with
  | starting | registering =>
      cases choice <;> cases h
      simp [Drainer.stepsLeft]
  | checking =>
      cases choice <;> cases h
      by_cases hzero : d.inflight = 0 <;> simp [hzero, Drainer.stepsLeft]
  | rechecking seen =>
      cases choice <;> cases h
      by_cases hzero : d.inflight = 0 <;> by_cases hseen : seen = d.notices <;>
        simp [hzero, hseen, Drainer.stepsLeft]
  | sleeping seen =>
      cases choice <;> simp only [Drainer.move] at h <;> split at h <;> cases h <;>
        simp_all [Drainer.stepsLeft, eq_comm]
  | returned finished => cases choice <;> cases h

theorem DrainThread.drainLeft_le (notices : ℕ) (t : DrainThread) : t.drainLeft notices ≤ 5 := by
  rcases t with w | dr
  · exact Nat.zero_le 5
  · cases dr with
    | rechecking seen | sleeping seen =>
        simp only [drainLeft, Drainer.stepsLeft]
        split <;> omega
    | _ => simp [drainLeft, Drainer.stepsLeft]

theorem DrainThread.potential_drainLeft_le (notices : ℕ) (threads : List DrainThread) :
    Machine.potential (DrainThread.drainLeft notices) threads ≤ 5 * threads.length := by
  have hsum := List.sum_le_card_nsmul (threads.map (DrainThread.drainLeft notices)) 5 (by
    intro n hn
    obtain ⟨t, -, rfl⟩ := List.mem_map.mp hn
    exact t.drainLeft_le notices)
  rwa [List.length_map, smul_eq_mul, mul_comm] at hsum

/-- Every step of a thread brings the team nearer to its rest. -/
theorem DrainTeam.stepsLeft_of_step {tid : ℕ}
    (hstep : shutdown.step team (.go tid choice) = some team') :
    team'.stepsLeft < team.stepsLeft := by
  obtain ⟨t, t', d', ht, hmove, rfl⟩ := Machine.step_go_iff.mp hstep
  have hwork := Machine.potential_set (f := DrainThread.workLeft) ht t'
  simp only [DrainTeam.stepsLeft, List.length_set]
  rcases t with w | dr
  · simp only [shutdown, DrainThread.move, Option.map_eq_some_iff, Prod.mk.injEq] at hmove
    obtain ⟨⟨w', e⟩, hw, rfl, rfl⟩ := hmove
    have hless := Work.stepsLeft_of_move hw
    have hfewer : Machine.potential DrainThread.workLeft (team.threads.set tid (.work w')) + 1 ≤
        Machine.potential DrainThread.workLeft team.threads := by
      simp only [DrainThread.workLeft] at hwork
      omega
    calc Machine.potential DrainThread.workLeft (team.threads.set tid (.work w')) *
            (5 * team.threads.length + 1) +
          Machine.potential (DrainThread.drainLeft e.notices) (team.threads.set tid (.work w'))
        ≤ Machine.potential DrainThread.workLeft (team.threads.set tid (.work w')) *
            (5 * team.threads.length + 1) + 5 * team.threads.length := by
          have hdrains := DrainThread.potential_drainLeft_le e.notices
            (team.threads.set tid (.work w'))
          rw [List.length_set] at hdrains
          omega
      _ < (Machine.potential DrainThread.workLeft (team.threads.set tid (.work w')) + 1) *
            (5 * team.threads.length + 1) := by
          rw [add_mul]
          omega
      _ ≤ Machine.potential DrainThread.workLeft team.threads *
            (5 * team.threads.length + 1) := Nat.mul_le_mul_right _ hfewer
      _ ≤ _ := Nat.le_add_right _ _
  · simp only [shutdown, DrainThread.move, Option.map_eq_some_iff, Prod.mk.injEq] at hmove
    obtain ⟨⟨dr', e⟩, hdr, rfl, rfl⟩ := hmove
    obtain ⟨-, hnotices, -⟩ := Drainer.move_cases hdr
    have hless := Drainer.stepsLeft_of_move hdr
    have hdrain := Machine.potential_set (f := DrainThread.drainLeft team.shared.notices) ht
      (.drainer dr')
    dsimp only at hless ⊢
    rw [hnotices] at hless ⊢
    simp only [DrainThread.workLeft, DrainThread.drainLeft, Nat.add_zero] at hwork hdrain
    rw [hwork]
    omega

theorem DrainTeam.length_le_stepsLeft {steps : List (Step DrainThread DrainChoice)}
    (hgo : ∀ st ∈ steps, st.mover ≠ none) (hrun : shutdown.run team steps = some team') :
    steps.length + team'.stepsLeft ≤ team.stepsLeft := by
  induction steps generalizing team with
  | nil =>
      cases hrun
      exact le_of_eq (Nat.zero_add _)
  | cons st rest ih =>
      rw [Machine.run, Option.bind_eq_some_iff] at hrun
      obtain ⟨mid, hstep, hrest⟩ := hrun
      have hlater := ih (fun st' hst' => hgo st' (List.mem_cons_of_mem st hst')) hrest
      cases st with
      | spawn t => exact absurd rfl (hgo _ List.mem_cons_self)
      | go tid choice =>
          have hless := DrainTeam.stepsLeft_of_step hstep
          rw [List.length_cons]
          omega

/-! ## At rest -/

/-- A unit of work that cannot move is done, or the count of references is full. -/
theorem Work.of_move_none {w : Work} (h : w.move d = none) :
    w = .left ∨ w = .refused ∨ (w = .admitted ∧ Drain.maxRefcount < d.references) := by
  cases w with
  | admitted =>
      simp only [Work.move, Option.map_eq_none_iff, Drain.increment, ite_eq_right_iff,
        reduceCtorEq, imp_false, not_le] at h
      exact .inr (.inr ⟨rfl, h⟩)
  | left => exact .inl rfl
  | refused => exact .inr (.inl rfl)
  | _ => cases h

/-- A drain that cannot move has returned or sleeps unnotified. -/
theorem Drainer.of_move_none (h : dr.move .go d = none) :
    (∃ finished, dr = .returned finished) ∨ dr = .sleeping d.notices := by
  cases dr with
  | sleeping seen =>
      simp only [Drainer.move] at h
      split at h
      · next hseen => exact .inr (by rw [hseen])
      · cases h
  | returned finished => exact .inl ⟨finished, rfl⟩
  | _ => cases h

/-- **A drain is always woken, and completes when the work does.**  In every run: a drain
that sleeps unnotified leaves a guard alive or a notification to be made; without new
threads only a bounded number of steps follow; and where no thread has a step of its own
left, no guard is alive and every drain has returned. -/
theorem drain_completes {steps : List (Step DrainThread DrainChoice)} {team : DrainTeam}
    (hrun : shutdown.run DrainTeam.init steps = some team) :
    (.drainer (.sleeping team.shared.notices) ∈ team.threads →
      .work .live ∈ team.threads ∨ .work .leaving ∈ team.threads) ∧
    (∀ more later, (∀ st ∈ more, st.mover ≠ none) → shutdown.run team more = some later →
      more.length ≤ team.stepsLeft) ∧
    ((∀ tid, shutdown.step team (.go tid .go) = none) →
      liveGuards team = 0 ∧
        ∀ dr, .drainer dr ∈ team.threads → ∃ finished, dr = .returned finished) := by
  have hwaking := DrainTeam.waking_init.run hrun
  refine ⟨hwaking.exists_waker, fun more later hgo hmore => ?_, fun hrest => ?_⟩
  · have hbound := DrainTeam.length_le_stepsLeft hgo hmore
    omega
  · have hstuck : ∀ t ∈ team.threads, t.move .go team.shared = none := by
      intro t ht
      obtain ⟨tid, htid⟩ := List.getElem?_of_mem ht
      have hnone := hrest tid
      simp only [Machine.step, htid, Option.map_eq_none_iff] at hnone
      exact hnone
    have hwork : ∀ w, .work w ∈ team.threads → w ≠ .live ∧ w ≠ .leaving := by
      intro w hw
      have hnone := hstuck _ hw
      simp only [DrainThread.move, Option.map_eq_none_iff] at hnone
      rcases Work.of_move_none hnone with rfl | rfl | ⟨rfl, -⟩ <;>
        exact ⟨by simp, by simp⟩
    refine ⟨List.countP_eq_zero.mpr fun t ht hlive => ?_, fun dr hdr => ?_⟩
    · obtain rfl : t = .work .live := by simpa [DrainThread.isLive] using hlive
      exact (hwork _ ht).1 rfl
    · have hnone := hstuck _ hdr
      simp only [DrainThread.move, Option.map_eq_none_iff] at hnone
      rcases Drainer.of_move_none hnone with hreturned | rfl
      · exact hreturned
      · -- asleep, and then somebody could still move
        rcases hwaking.exists_waker hdr with hlive | hleaving
        · exact absurd rfl (hwork _ hlive).1
        · exact absurd rfl (hwork _ hleaving).2

/-- A drain waits for one request, whose guard is dropped but not announced. -/
def Scenario.drainWaits : List (Step DrainThread DrainChoice) :=
  [.spawn (.work .arriving), .go 0 .go, .go 0 .go, .spawn (.drainer .starting), .go 1 .go,
    .go 1 .go, .go 1 .go, .go 1 .go, .go 0 .go]

theorem Scenario.drain_completes_waits : ∃ team : DrainTeam,
    shutdown.run DrainTeam.init drainWaits = some team ∧
      (.drainer (.sleeping team.shared.notices) ∈ team.threads ∧ team.shared.inflight = 0) ∧
      (.work .live ∈ team.threads ∨ .work .leaving ∈ team.threads) := by
  have hrun : shutdown.run DrainTeam.init drainWaits =
      some { shared := { inflight := 0, draining := true, notices := 0, references := 1 },
             threads := [.work .leaving, .drainer (.sleeping 0)] } := by rfl
  exact ⟨_, hrun, by decide, (drain_completes hrun).1 (by decide)⟩

end Cachic
