import Cachic.Lib.Team
import Cachic.Range

/-!
# Graceful shutdown

`Drain` counts the units of work in flight.  `enter` is a load of `draining` and then an
increment; a guard's drop is a decrement and, for the last one out, a notification; `drain`
is a store of `draining` and then reads of the count, between which it may sleep until a
notification or its deadline.  Each of those is one step here, so that any number of units
of work and of drains interleave as threads of `shutdown`.

`enter_unconditional` has no caller in the crate and no thread here starts with it.
-/

namespace Cachic

open Range ThreadTeam

/-- The shared half of a drain.  `notices` counts the calls of `notify_waiters`, which is
what a waiter registered before one of them compares; `references` is the strong count of
the `Arc` every guard holds. -/
structure Drain where
  inflight : ℕ
  draining : Bool
  notices : ℕ
  references : ℕ
  deriving DecidableEq, Repr

namespace Drain

def new : Drain := { inflight := 0, draining := false, notices := 0, references := 1 }

/-- `Arc::clone` aborts the process beyond `isize::MAX` references. -/
def maxRefcount : ℕ := 2 ^ 63 - 1

/-- The second half of `enter`: count the work and clone the `Arc` for its guard. -/
def increment (d : Drain) : Option Drain :=
  if d.references ≤ maxRefcount then
    some { d with inflight := wrapAdd 64 d.inflight 1, references := d.references + 1 }
  else none

/-- The first half of a guard's drop. -/
def decrement (d : Drain) : Drain :=
  { d with inflight := wrapSub 64 d.inflight 1, references := d.references - 1 }

theorem draining_increment {d d' : Drain} (h : d.increment = some d') :
    d'.draining = d.draining := by
  unfold increment at h
  split at h <;> cases h
  rfl

/-- Wake whoever waits for idle. -/
def notifyWaiters (d : Drain) : Drain := { d with notices := d.notices + 1 }

end Drain

/-- Where a unit of work is. -/
inductive Work
  /-- before `enter` reads `draining` -/
  | arriving
  /-- `enter` has read `false` and not incremented yet -/
  | admitted
  /-- holds its guard -/
  | live
  /-- the guard's drop was the last and has not notified yet -/
  | leaving
  | left
  | refused
  deriving DecidableEq, Repr

def Work.move : Work → Drain → Option (Work × Drain)
  | .arriving, d => some (if d.draining then .refused else .admitted, d)
  | .admitted, d => d.increment.map fun d' => (.live, d')
  | .live, d => some (if d.inflight = 1 then .leaving else .left, d.decrement)
  | .leaving, d => some (.left, d.notifyWaiters)
  | .left, _ => none
  | .refused, _ => none

/-- Where a call of `drain` is. -/
inductive Drainer
  /-- before `draining` is stored -/
  | starting
  /-- before the first read of the count -/
  | checking
  /-- at the head of the loop, before `notified()` -/
  | registering
  /-- registered when `notices` was `seen`, before the count is read again -/
  | rechecking (seen : ℕ)
  /-- awaits the notification -/
  | sleeping (seen : ℕ)
  | returned (finished : Bool)
  deriving DecidableEq, Repr

/-- What decides a step: nothing, or the deadline of a `drain`. -/
inductive DrainChoice
  | go
  | deadline
  deriving DecidableEq, Repr

def Drainer.move : Drainer → DrainChoice → Drain → Option (Drainer × Drain)
  | .starting, .go, d => some (.checking, { d with draining := true })
  | .checking, .go, d => some (if d.inflight = 0 then .returned true else .registering, d)
  | .registering, .go, d => some (.rechecking d.notices, d)
  | .rechecking seen, .go, d =>
      some (if d.inflight = 0 then .returned true else .sleeping seen, d)
  | .sleeping seen, .go, d => if d.notices = seen then none else some (.registering, d)
  -- the deadline is looked at only when the wait is pending
  | .sleeping seen, .deadline, d =>
      if d.notices = seen then some (.returned false, d) else none
  | _, _, _ => none

/-- A thread of the process, as far as a drain can tell. -/
inductive DrainThread
  | work (w : Work)
  | drainer (d : Drainer)
  deriving DecidableEq, Repr

namespace DrainThread

/-- A request arrives, or a drain is called. -/
def start : DrainThread → Bool
  | .work w => w = .arriving
  | .drainer d => d = .starting

def move (t : DrainThread) (choice : DrainChoice) (d : Drain) : Option (DrainThread × Drain) :=
  match t with
  | .work w => (w.move d).map fun r => (.work r.1, r.2)
  | .drainer dr => (dr.move choice d).map fun r => (.drainer r.1, r.2)

/-- Whether the thread holds a guard. -/
def isLive (t : DrainThread) : Bool := t = .work .live

/-- Whether the thread has passed the check of `enter` and is not counted yet. -/
def isAdmitted (t : DrainThread) : Bool := t = .work .admitted

end DrainThread

def shutdown : Machine Drain DrainThread DrainChoice where
  start := DrainThread.start
  move := fun _ => DrainThread.move

abbrev DrainTeam := Team Drain DrainThread

/-- A process that has just started. -/
def DrainTeam.init : DrainTeam := { shared := .new, threads := [] }

/-- The number of guards alive. -/
def liveGuards (team : DrainTeam) : ℕ := team.threads.countP DrainThread.isLive

/-! ## The count is the number of guards -/

/-- A drain that counts `n` guards. -/
structure Drain.Tally (n : ℕ) (d : Drain) : Prop where
  inflight : d.inflight = n
  references : d.references = n + 1
  bounded : n < 2 ^ 63

variable {d d' : Drain} {choice : DrainChoice} {t : DrainThread} {team : DrainTeam}

theorem Drain.Tally.increment {n : ℕ} (h : d.Tally n) (hinc : d.increment = some d') :
    d'.Tally (n + 1) := by
  simp only [Drain.increment, Drain.maxRefcount, h.inflight, h.references] at hinc
  split at hinc
  · next hroom =>
      cases hinc
      refine ⟨?_, rfl, by omega⟩
      show (n + 1) % 2 ^ 64 = n + 1
      omega
  · cases hinc

theorem Drain.Tally.decrement {n : ℕ} (h : d.Tally (n + 1)) :
    d.decrement.Tally n := by
  have hbound := h.bounded
  refine ⟨?_, ?_, by omega⟩
  · show wrapSub 64 d.inflight 1 = n
    rw [h.inflight, wrapSub_of_le (by omega) (by omega)]
    omega
  · show d.references - 1 = n + 1
    rw [h.references]
    omega

/-- One move changes the count as it changes the number of guards: a thread leaves one
position and takes another. -/
theorem Drain.Tally.move {n : ℕ} {t' : DrainThread} (h : d.Tally n)
    (hlive : t.isLive = true → 0 < n) (hmove : t.move choice d = some (t', d')) :
    ∃ n', d'.Tally n' ∧
      n' + (if t.isLive then 1 else 0) = n + (if t'.isLive then 1 else 0) := by
  -- only an increment and a decrement touch what is counted
  have hsame : ∀ {d' : Drain}, d'.inflight = d.inflight → d'.references = d.references →
      d'.Tally n := fun hi hr => ⟨hi.trans h.inflight, hr.trans h.references, h.bounded⟩
  rcases t with w | dr
  · simp only [DrainThread.move, Option.map_eq_some_iff, Prod.mk.injEq] at hmove
    obtain ⟨⟨w', e⟩, hw, rfl, rfl⟩ := hmove
    cases w with
    | arriving =>
        cases hw
        refine ⟨n, hsame rfl rfl, ?_⟩
        cases d.draining <;> rfl
    | admitted =>
        simp only [Work.move, Option.map_eq_some_iff] at hw
        obtain ⟨e', hinc, heq⟩ := hw
        cases heq
        exact ⟨n + 1, h.increment hinc, rfl⟩
    | live =>
        cases hw
        obtain ⟨k, rfl⟩ := Nat.exists_eq_succ_of_ne_zero (hlive rfl).ne'
        refine ⟨k, h.decrement, ?_⟩
        have hgone : ∀ last : Prop, [Decidable last] →
            (DrainThread.work (if last then .leaving else .left)).isLive = false := by
          intro last _
          split <;> rfl
        rw [hgone]
        rfl
    | leaving =>
        cases hw
        exact ⟨n, hsame rfl rfl, rfl⟩
    | left => cases hw
    | refused => cases hw
  · simp only [DrainThread.move, Option.map_eq_some_iff, Prod.mk.injEq] at hmove
    obtain ⟨⟨dr', e⟩, hd, rfl, rfl⟩ := hmove
    refine ⟨n, ?_, rfl⟩
    cases dr <;> cases choice <;> simp only [Drainer.move] at hd <;>
      first
        | (cases hd; exact hsame rfl rfl)
        | (split at hd <;> cases hd; exact hsame rfl rfl)
        | cases hd

theorem tally_account : shutdown.Account (fun d n => d.Tally n) DrainThread.isLive where
  start := by
    intro t hstart
    rcases t with w | dr
    · obtain rfl : w = .arriving := by simpa [shutdown, DrainThread.start] using hstart
      rfl
    · rfl
  move := fun h hlive hmove => h.move hlive hmove

/-- In every state of every run `inflight` is the number of guards alive. -/
theorem DrainTeam.tally {team' : DrainTeam} {steps : List (Step DrainThread DrainChoice)}
    (hteam : team.shared.Tally (liveGuards team)) (hrun : shutdown.run team steps = some team') :
    team'.shared.Tally (liveGuards team') :=
  tally_account.run hteam hrun

theorem DrainTeam.init_tally : DrainTeam.init.shared.Tally (liveGuards DrainTeam.init) :=
  ⟨rfl, rfl, by decide⟩

/-! ## What a drain knows when it returns -/

/-- What a drain has done so far: beyond its first step `draining` is set. -/
def DrainThread.Announced (d : Drain) : DrainThread → Prop
  | .work _ => True
  | .drainer dr => dr ≠ .starting → d.draining = true

theorem Work.draining_of_move {w w' : Work} (h : w.move d = some (w', d')) :
    d'.draining = d.draining := by
  cases w with
  | admitted =>
      simp only [Work.move, Option.map_eq_some_iff, Prod.mk.injEq] at h
      obtain ⟨e, hinc, -, rfl⟩ := h
      exact Drain.draining_increment hinc
  | arriving | live | leaving =>
      simp only [Work.move, Option.some.injEq, Prod.mk.injEq] at h
      simp only [← h.2, Drain.decrement, Drain.notifyWaiters]
  | left | refused => cases h

/-- Nothing resets `draining`. -/
theorem DrainThread.draining_of_move {t' : DrainThread} (hmove : t.move choice d = some (t', d'))
    (hd : d.draining = true) : d'.draining = true := by
  rcases t with w | dr
  · simp only [DrainThread.move, Option.map_eq_some_iff, Prod.mk.injEq] at hmove
    obtain ⟨⟨w', e⟩, hw, rfl, rfl⟩ := hmove
    exact (Work.draining_of_move hw).trans hd
  · simp only [DrainThread.move, Option.map_eq_some_iff, Prod.mk.injEq] at hmove
    obtain ⟨⟨dr', e⟩, hdr, rfl, rfl⟩ := hmove
    cases dr <;> cases choice <;> simp only [Drainer.move] at hdr <;>
      first
        | (cases hdr; first | exact hd | rfl)
        | (split at hdr <;> cases hdr; exact hd)
        | cases hdr

theorem announced_modular :
    shutdown.Modular (fun _ => True) fun d _ t => DrainThread.Announced d t where
  start := by
    intro d _ t _ hstart
    rcases t with w | dr
    · trivial
    · intro hne
      exact absurd (by simpa [shutdown, DrainThread.start] using hstart) hne
  own := by
    intro d d' _ t t' choice _ hann hmove
    refine ⟨trivial, ?_⟩
    rcases t with w | dr
    · simp only [shutdown, DrainThread.move, Option.map_eq_some_iff] at hmove
      obtain ⟨r, -, heq⟩ := hmove
      cases heq
      trivial
    · by_cases hfirst : dr = .starting
      · subst hfirst
        cases choice <;> cases hmove
        intro _
        rfl
      · have hset : d'.draining = true :=
          DrainThread.draining_of_move (t := .drainer dr) hmove (hann hfirst)
        simp only [shutdown, DrainThread.move, Option.map_eq_some_iff] at hmove
        obtain ⟨r, -, heq⟩ := hmove
        cases heq
        exact fun _ => hset
  others := by
    intro d d' _ t t' choice _ u _ _ hmove _ hu
    rcases u with w | dr
    · trivial
    · exact fun hne => DrainThread.draining_of_move hmove (hu hne)

/-- A call returns `true` only from a read of the count, and that read was zero. -/
theorem Drainer.returned_true_of_move {dr : Drainer}
    (hmove : dr.move choice d = some (.returned true, d')) :
    d.inflight = 0 ∧ d' = d ∧ dr ≠ .starting := by
  have hzero : ∀ {later : Drainer}, later ≠ .returned true →
      (if d.inflight = 0 then Drainer.returned true else later) = .returned true →
      d.inflight = 0 := by
    intro later hne hif
    by_contra hcount
    rw [if_neg hcount] at hif
    exact hne hif
  cases dr with
  | checking | rechecking seen =>
      cases choice <;> simp only [Drainer.move, Option.some.injEq, Prod.mk.injEq,
        reduceCtorEq] at hmove
      exact ⟨hzero (by simp) hmove.1, hmove.2.symm, by simp⟩
  | starting | registering | sleeping seen | returned finished =>
      cases choice <;> simp [Drainer.move] at hmove

/-- **A drain reads zero and announces it**: the step in which a drain returns `true` finds
no guard alive, with `draining` set, and leaves the shared state as it is. -/
theorem returned_true {team' : DrainTeam} {tid : ℕ} (htally : team.shared.Tally (liveGuards team))
    (hann : Machine.Holds (fun _ => True) (fun d _ t => DrainThread.Announced d t) team)
    (hstep : shutdown.step team (.go tid choice) = some team')
    (hreturn : team'.threads[tid]? = some (.drainer (.returned true))) :
    liveGuards team = 0 ∧ team'.shared = team.shared ∧ team.shared.draining = true := by
  obtain ⟨t, t', s', ht, hmove, rfl⟩ := Machine.step_go_iff.mp hstep
  obtain rfl : t' = .drainer (.returned true) := Machine.eq_of_getElem?_set ht hreturn
  have hset := hann.thread ht
  rcases t with w | dr
  · simp [shutdown, DrainThread.move, Option.map_eq_some_iff] at hmove
  · simp only [shutdown, DrainThread.move, Option.map_eq_some_iff, Prod.mk.injEq,
      DrainThread.drainer.injEq] at hmove
    obtain ⟨⟨dr', e⟩, hdr, rfl, rfl⟩ := hmove
    obtain ⟨hzero, hsame, hstarted⟩ := Drainer.returned_true_of_move hdr
    exact ⟨htally.inflight.symm.trans hzero, hsame, hset hstarted⟩

/-! ## Whether it stays that way -/

/-- Once `draining` is set, threads that hold no guard and have not passed the check of
`enter` never will. -/
theorem quiet_modular : shutdown.Modular (fun d => d.draining = true)
    fun _ _ t => t.isLive = false ∧ t.isAdmitted = false where
  start := by
    intro _ _ t _ hstart
    rcases t with w | dr
    · obtain rfl : w = .arriving := by simpa [shutdown, DrainThread.start] using hstart
      exact ⟨rfl, rfl⟩
    · exact ⟨rfl, rfl⟩
  own := by
    intro d d' _ t t' choice hd hquiet hmove
    refine ⟨DrainThread.draining_of_move hmove hd, ?_⟩
    rcases t with w | dr
    · simp only [shutdown, DrainThread.move, Option.map_eq_some_iff, Prod.mk.injEq] at hmove
      obtain ⟨⟨w', e⟩, hw, rfl, rfl⟩ := hmove
      cases w with
      | arriving =>
          simp only [Work.move, hd, if_true, Option.some.injEq, Prod.mk.injEq] at hw
          obtain ⟨rfl, -⟩ := hw
          exact ⟨rfl, rfl⟩
      | admitted => exact absurd hquiet.2 (by simp [DrainThread.isAdmitted])
      | live => exact absurd hquiet.1 (by simp [DrainThread.isLive])
      | leaving => cases hw; exact ⟨rfl, rfl⟩
      | left => cases hw
      | refused => cases hw
    · simp only [shutdown, DrainThread.move, Option.map_eq_some_iff] at hmove
      obtain ⟨r, -, heq⟩ := hmove
      cases heq
      exact ⟨rfl, rfl⟩
  others := fun _ _ _ _ hu => hu

/-- A thread that has passed the check can always take its guard, as long as no other is
alive. -/
theorem admitted_becomes_live (htally : team.shared.Tally 0) (ht : t ∈ team.threads)
    (hadmitted : t.isAdmitted = true) :
    ∃ steps later, shutdown.run team steps = some later ∧ liveGuards later ≠ 0 := by
  obtain rfl : t = .work .admitted := by simpa [DrainThread.isAdmitted] using hadmitted
  obtain ⟨tid, hget⟩ := List.getElem?_of_mem ht
  obtain ⟨hlt, -⟩ := List.getElem?_eq_some_iff.mp hget
  have hroom : team.shared.references ≤ Drain.maxRefcount := by
    rw [htally.references]
    decide
  have hmove : ∃ d', shutdown.move tid (.work .admitted) .go team.shared =
      some (.work .live, d') := by
    simp [shutdown, DrainThread.move, Work.move, Drain.increment, hroom]
  obtain ⟨d', hmove⟩ := hmove
  refine ⟨_, _, Machine.run_go hget hmove, ?_⟩
  have hmem : DrainThread.work .live ∈ team.threads.set tid (.work .live) := by
    exact List.mem_set hlt _
  exact (List.countP_pos_iff.mpr ⟨_, hmem, rfl⟩).ne'

/-- **A completed drain, in every interleaving.**  `inflight` is the number of guards alive
and a drop never takes it below zero; and a drain that returns `true` stays complete, with no
guard alive then or ever after, exactly if no thread was between the check and the increment
of `enter` at that moment. -/
theorem drain_stays_complete_iff {steps : List (Step DrainThread DrainChoice)}
    {team : DrainTeam} (hrun : shutdown.run DrainTeam.init steps = some team) :
    team.shared.inflight = liveGuards team ∧
      (∀ tid choice team', team.threads[tid]? = some (.work .live) →
        shutdown.step team (.go tid choice) = some team' →
        team'.shared.inflight + 1 = team.shared.inflight) ∧
      ∀ tid choice team', shutdown.step team (.go tid choice) = some team' →
        team'.threads[tid]? = some (.drainer (.returned true)) →
        ((∀ more later, shutdown.run team' more = some later →
            later.shared.inflight = 0 ∧ liveGuards later = 0) ↔
          ∀ t ∈ team'.threads, t.isAdmitted = false) := by
  have htally := DrainTeam.tally DrainTeam.init_tally hrun
  have hnobody : Machine.Holds (fun _ => True) (fun d _ t => DrainThread.Announced d t)
      DrainTeam.init := ⟨trivial, fun h => by simp [DrainTeam.init] at h⟩
  have hann := announced_modular.run hnobody hrun
  have hnext : ∀ {st team'}, shutdown.step team st = some team' →
      team'.shared.Tally (liveGuards team') := by
    intro st team' hstep
    have hone : shutdown.run team [st] = some team' := by simp [Machine.run, hstep]
    exact DrainTeam.tally htally hone
  refine ⟨htally.inflight, fun tid choice team' ht hstep => ?_,
    fun tid choice team' hstep hreturn => ?_⟩
  · obtain ⟨t, t', s', ht', hmove, rfl⟩ := Machine.step_go_iff.mp hstep
    obtain rfl : t = .work .live := by simpa [ht] using ht'.symm
    have hpos : 0 < liveGuards team := List.countP_pos_iff.mpr ⟨_, List.mem_of_getElem? ht, rfl⟩
    obtain ⟨k, hk⟩ := Nat.exists_eq_succ_of_ne_zero hpos.ne'
    have hdec : team.shared.decrement.Tally k := by
      rw [hk] at htally
      exact htally.decrement
    obtain ⟨-, rfl⟩ : _ ∧ team.shared.decrement = s' := by
      simpa [shutdown, DrainThread.move, Work.move] using hmove
    show team.shared.decrement.inflight + 1 = team.shared.inflight
    rw [hdec.inflight, htally.inflight, hk]
  · obtain ⟨hnone, hshared, hset⟩ := returned_true htally hann hstep hreturn
    have hzero : team'.shared.Tally 0 := by
      rw [hshared, ← hnone]
      exact htally
    have hlive : liveGuards team' = 0 :=
      (hnext hstep).inflight.symm.trans hzero.inflight
    constructor
    · intro hquiet t ht
      by_contra hadmitted
      obtain ⟨more, later, hmore, hne⟩ :=
        admitted_becomes_live hzero ht (by simpa using hadmitted)
      exact hne (hquiet more later hmore).2
    · intro hnobody more later hmore
      have hquiet : Machine.Holds (fun d : Drain => d.draining = true)
          (fun _ _ t => t.isLive = false ∧ t.isAdmitted = false) team' := by
        refine ⟨hshared ▸ hset, fun {k t} hk => ?_⟩
        have hmem := List.mem_of_getElem? hk
        refine ⟨?_, hnobody t hmem⟩
        have := List.countP_eq_zero.mp hlive t hmem
        simpa using this
      have hafter := quiet_modular.run hquiet hmore
      have hlater : liveGuards later = 0 := by
        refine List.countP_eq_zero.mpr fun t ht => ?_
        obtain ⟨k, hk⟩ := List.getElem?_of_mem ht
        simp [(hafter.thread hk).1]
      refine ⟨?_, hlater⟩
      rw [(DrainTeam.tally (hnext hstep) hmore).inflight, hlater]

/-- One request comes and goes before the process is drained. -/
def Scenario.drainedAfter : List (Step DrainThread DrainChoice) :=
  [.spawn (.work .arriving), .go 0 .go, .go 0 .go, .go 0 .go, .go 0 .go,
    .spawn (.drainer .starting), .go 1 .go]

/-- That drain completes for good. -/
theorem drain_stays_complete_after : ∃ team team' : DrainTeam,
    shutdown.run DrainTeam.init Scenario.drainedAfter = some team ∧
      shutdown.step team (.go 1 .go) = some team' ∧
      team'.threads[1]? = some (.drainer (.returned true)) ∧
      ∀ more later, shutdown.run team' more = some later →
        later.shared.inflight = 0 ∧ liveGuards later = 0 := by
  have hrun : shutdown.run DrainTeam.init Scenario.drainedAfter =
      some { shared := { inflight := 0, draining := true, notices := 1, references := 1 },
             threads := [.work .left, .drainer .checking] } := by rfl
  refine ⟨_, _, hrun, rfl, rfl, ?_⟩
  exact ((drain_stays_complete_iff hrun).2.2 1 .go _ rfl rfl).mpr (by decide)

/-- A request reads `draining`, the drain sets it and reads the count, and only then the
request is counted: the drain has returned `true` and a guard is alive. -/
theorem drain_returns_before_increment : ∃ team : DrainTeam,
    shutdown.run DrainTeam.init
      [.spawn (.work .arriving), .go 0 .go, .spawn (.drainer .starting), .go 1 .go, .go 1 .go,
        .go 0 .go] = some team ∧
      team.threads[1]? = some (.drainer (.returned true)) ∧
      team.threads[0]? = some (.work .live) ∧ team.shared.inflight = 1 :=
  ⟨_, rfl, rfl, rfl, rfl⟩

end Cachic
