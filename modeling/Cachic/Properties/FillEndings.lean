import Cachic.Properties.FillProtocol

/-!
# How a fill ends

A fill ends by publishing `Complete` or `Failed`, or by being abandoned.  In both cases the
filling task lets go of it, and from then on nothing about the fill changes
(`Stopped.shift`): the rest is what its requesters find.

* `failed_fill_iff`: `Failed` replaces the last `Ready`, so a requester that has not
  returned by then gets the error, also for a slice that was stored.
* `abandoned_fill_strands`: a fill that is abandoned before its release stays in the
  registry, which holds the sending half, so the channel never closes.
-/

namespace Cachic

open Range ActionLang ThreadTeam FillState

/-- A fill nobody works on any more, with the state it was left in. -/
structure Stopped (fill : FillId) (progress : Progress) (registered : Prop) (stored : ℕ → Bool)
    (w : FillState) : Prop where
  used : fill.serial < w.shared.fresh
  held : w.held fill = false
  progress : w.shared.fills fill = progress
  registered : w.Registered fill ↔ registered
  stored : w.inserted fill = stored

section Stopped

variable {fill : FillId} {progress : Progress} {registered : Prop} {stored : ℕ → Bool}
  {w w' : FillState}

/-- A fill nobody works on stays as it is. -/
theorem Stopped.shift {tid : ℕ} (h : Stopped fill progress registered stored w)
    (hs : Shift tid w w') : Stopped fill progress registered stored w' := by
  have hagree := hs.others fill h.used (.inr h.held)
  exact ⟨lt_of_lt_of_le h.used hs.fresh, hagree.held.trans h.held,
    hagree.progress.trans h.progress, hagree.registered.trans h.registered,
    hagree.inserted.trans h.stored⟩

/-- No requester is responsible for it. -/
theorem Stopped.not_owns (h : Stopped fill progress registered stored w) {tid : ℕ}
    {call : FillCall} : ¬ w.Owns tid call fill := by
  intro hown
  have := hown.held
  rw [h.held] at this
  cases this

theorem Stopped.modular (cfg : Config) (fill : FillId) (progress : Progress) (registered : Prop)
    (stored : ℕ → Bool) : (fillMachine cfg).Modular
      (fun w => w.Inv ∧ Stopped fill progress registered stored w) fun w tid t => t.Ok w tid where
  start := fun hw hstart => (fillMachine_modular cfg).start hw.1 hstart
  own := by
    intro w w' tid t t' choice hw h hmove
    obtain ⟨hinv, hok, hs⟩ := FillThread.ok_of_move hw.1 h hmove
    exact ⟨⟨hinv, hw.2.shift hs⟩, hok⟩
  others := fun hw h hmove hne hu => (fillMachine_modular cfg).others hw.1 h hmove hne hu

end Stopped

/-! ## A fill that fails -/

/-- Whether a position still waits for the fill, or performs it. -/
def FillPc.attached (fill : FillId) : FillPc → Bool
  | .polling g => g = fill
  | .waiting g _ => g = fill
  | pc => pc.fills = some fill

/-- A requester for which a failed fill is settled: it has been told the truth about its
slice, or will be told an error that is the truth. -/
def FillPc.Settled (fill : FillId) (stored : ℕ → Bool) (call : FillCall) : FillPc → Prop
  | .polling g => g = fill → stored call.index = false
  | .waiting g _ => g = fill → stored call.index = false
  | .returned (some g) result => g = fill → (stored call.index = true ↔ result = .ok ())
  | _ => True

def FillThread.Settled (fill : FillId) (stored : ℕ → Bool) : FillThread → Prop
  | .requester call pc => pc.Settled fill stored call
  | .other _ => True

theorem Streaming.settled_read (cfg : Config) (fill g : FillId) (stored : ℕ → Bool)
    (call : FillCall) (stream : Streaming) :
    (stream.read cfg g call.url).Settled fill stored call := by
  unfold Streaming.read
  split
  · dsimp only
    split <;> trivial
  · split
    · trivial
    · split <;> trivial

theorem Streaming.settled_resume (cfg : Config) (fill g : FillId) (stored : ℕ → Bool)
    (call : FillCall) (stream : Streaming) :
    (stream.resume cfg g).Settled fill stored call := by
  unfold Streaming.resume
  split <;> trivial

/-- A poll of a failed fill is an error. -/
theorem verdict_failed (reason : String) (index : ℕ) :
    (Progress.failed reason).verdict index = some (.error reason) := rfl

theorem FillPc.Moves.settled {cfg : Config} {w w' : FillState} {tid : ℕ} {call : FillCall}
    {pc pc' : FillPc} {fill : FillId} {reason : String} {stored : ℕ → Bool}
    (hmoves : pc.Moves cfg tid call w pc' w') (hinv : w.Inv)
    (hstopped : Stopped fill (.failed reason) False stored w) (hok : pc.Ok w tid call)
    (h : pc.Settled fill stored call) : pc'.Settled fill stored call := by
  -- an error is the truth about a slice that was not stored
  have herror : ∀ {e : OrchestratorError}, stored call.index = false →
      (stored call.index = true ↔ (Except.error e : Except OrchestratorError Unit) = .ok ()) := by
    intro e hnot
    simp [hnot]
  cases hmoves with
  | @subscribe g hg =>
      -- the fill is not registered, so this is another
      rintro rfl
      refine absurd (hstopped.registered.mp ?_) id
      unfold Registered
      rw [(hinv.registered hg).1]
      exact hg
  | told hanswer =>
      rintro rfl
      rw [hstopped.progress, verdict_failed] at hanswer
      cases hanswer
      exact herror (h rfl)
  | wait _ => exact h
  | wake _ => exact h
  | closed _ _ => exact fun hg => herror (h hg)
  | read => exact Streaming.settled_read cfg fill _ stored call _
  | publish => exact Streaming.settled_resume cfg fill _ stored call _
  | announce =>
      rintro rfl
      exact absurd hok.1 hstopped.not_owns
  | _ => trivial

theorem settled_modular (cfg : Config) (fill : FillId) (reason : String) (stored : ℕ → Bool) :
    (fillMachine cfg).Modular
      (fun w => w.Inv ∧ Stopped fill (.failed reason) False stored w)
      fun w tid t => t.Ok w tid ∧ t.Settled fill stored where
  start := by
    intro w tid t hw hstart
    refine ⟨(fillMachine_modular cfg).start hw.1 hstart, ?_⟩
    rcases t with ⟨call, pc⟩ | rest
    · cases pc with
      | starting => trivial
      | _ => cases hstart
    · trivial
  own := by
    intro w w' tid t t' choice hw h hmove
    obtain ⟨hnext, hok⟩ := (Stopped.modular cfg fill _ _ stored).own hw h.1 hmove
    refine ⟨hnext, hok, ?_⟩
    cases FillThread.moves_of_move hmove with
    | requester hpc => exact hpc.settled hw.1 hw.2 h.1 h.2
    | abandon _ => trivial
    | other _ _ => trivial
  others := fun hw h hmove hne hu =>
    ⟨(fillMachine_modular cfg).others hw.1 h.1 hmove hne hu.1, hu.2⟩

section Failed

variable {cfg : Config} {team team' : FillTeam} {tid : ℕ} {call : FillCall} {fill : FillId}
  {e : OrchestratorError} {choice : Choice}

/-- What the publication of a failure leaves. -/
theorem stopped_of_failed (hsafe : FillTeam.Safe team)
    (hat : RequesterAt team tid call (.announcing fill (.error e)))
    (hstep : (fillMachine cfg).step team (.go tid (.go choice)) = some team') :
    Stopped fill (.failed (e.text cfg)) False (team.shared.inserted fill) team'.shared ∧
      team'.threads = team.threads.set tid (.requester call (.returned (some fill) (.error e))) ∧
      team.shared.version fill < team'.shared.version fill := by
  obtain ⟨t, t', w', ht, hmove, rfl⟩ := Machine.step_go_iff.mp hstep
  obtain rfl : FillThread.requester call (.announcing fill (.error e)) = t :=
    Option.some.inj (hat.symm.trans ht)
  cases hmove
  obtain ⟨hown, hreg, -⟩ := hsafe.thread hat
  refine ⟨⟨hown.used, ?_, ?_, iff_false_intro hreg, rfl⟩, rfl, ?_⟩
  · exact Function.update_self _ _ _
  · exact Function.update_self _ _ _
  · show team.shared.version fill <
      Function.update team.shared.version fill (team.shared.version fill + 1) fill
    rw [Function.update_self]
    exact Nat.lt_succ_self _

/-- When a fill fails, whoever has gone through it so far was told the truth: before that
there was no error to be told. -/
theorem settled_of_clear (hsafe : FillTeam.Safe team)
    (hat : RequesterAt team tid call (.announcing fill (.error e)))
    (hclear : ∀ j call' pc, RequesterAt team j call' pc → pc.attached fill = true →
      team.shared.inserted fill call'.index = false)
    {j : ℕ} {t : FillThread} (hj : team.threads[j]? = some t) :
    t.Settled fill (team.shared.inserted fill) := by
  rcases t with ⟨call', pc⟩ | rest
  · cases pc with
    | polling g =>
        rintro rfl
        exact hclear j call' _ hj (by simp [FillPc.attached])
    | waiting g seen =>
        rintro rfl
        exact hclear j call' _ hj (by simp [FillPc.attached])
    | returned via result =>
        cases via with
        | none => trivial
        | some g =>
            rintro rfl
            obtain ⟨-, hstored, herror⟩ := hsafe.thread hj
            have hheld := (hsafe.thread hat).1.held
            have hresult : result = .ok () := by
              by_contra hne
              rw [herror hne] at hheld
              cases hheld
            exact ⟨fun _ => hresult, hstored⟩
    | _ => trivial
  · trivial

/-- Whoever is still attached to a fill that has failed can be told the error. -/
theorem error_of_attached (hsafe : FillTeam.Safe team)
    (hat : RequesterAt team tid call (.announcing fill (.error e)))
    (hstep : (fillMachine cfg).step team (.go tid (.go choice)) = some team')
    {j : ℕ} {call' : FillCall} {pc : FillPc} (hj : RequesterAt team j call' pc)
    (hattached : pc.attached fill = true) :
    ∃ more later reason, (fillMachine cfg).run team' more = some later ∧
      RequesterAt later j call' (.returned (some fill) (.error reason)) := by
  obtain ⟨hstopped, hthreads, hversion⟩ := stopped_of_failed hsafe hat hstep
  by_cases hself : j = tid
  · -- the filler itself returns the error with which it failed
    subst hself
    obtain ⟨hlt, -⟩ := List.getElem?_eq_some_iff.mp hat
    obtain ⟨rfl, rfl⟩ : call = call' ∧ _ = pc := by
      simpa using Option.some.inj (hat.symm.trans hj)
    refine ⟨[], team', e, rfl, ?_⟩
    show team'.threads[j]? = _
    rw [hthreads, List.getElem?_set_self hlt]
  · have hj' : RequesterAt team' j call' pc := by
      show team'.threads[j]? = _
      rw [hthreads, List.getElem?_set_ne (Ne.symm hself)]
      exact hj
    obtain ⟨hlt, -⟩ := List.getElem?_eq_some_iff.mp hj'
    -- a poll of the failed fill
    have hpoll : ∀ {now : FillTeam}, now.shared = team'.shared →
        RequesterAt now j call' (.polling fill) → ∃ later,
        (fillMachine cfg).run now [.go j (.go .go)] = some later ∧
        RequesterAt later j call'
          (.returned (some fill) (.error (.fill call'.url (e.text cfg)))) := by
      intro now hnow hat'
      obtain ⟨hlt', -⟩ := List.getElem?_eq_some_iff.mp hat'
      have hmove :
          (fillMachine cfg).move j (.requester call' (.polling fill)) (.go .go) now.shared =
            some (.requester call' (.returned (some fill)
              (.error (.fill call'.url (e.text cfg)))), now.shared) := by
        simp only [fillMachine, FillThread.move, FillPc.move, hnow, hstopped.progress,
          verdict_failed, subscriberResult, Option.map_some]
      exact ⟨_, Machine.run_go hat' hmove, List.getElem?_set_self hlt'⟩
    cases pc with
    | polling g =>
        obtain rfl : g = fill := by simpa [FillPc.attached] using hattached
        obtain ⟨later, hrun, hlater⟩ := hpoll rfl hj'
        exact ⟨_, later, _, hrun, hlater⟩
    | waiting g seen =>
        obtain rfl : g = fill := by simpa [FillPc.attached] using hattached
        -- the failure is newer than what it has seen
        have hwoken : seen < team'.shared.version g := by
          obtain ⟨-, hseen, -⟩ := hsafe.thread hj
          omega
        have hmove : (fillMachine cfg).move j (.requester call' (.waiting g seen)) (.go .go)
            team'.shared = some (.requester call' (.polling g), team'.shared) := by
          simp only [fillMachine, FillThread.move, FillPc.move, hwoken, if_true, Option.map_some]
        obtain ⟨later, hrun, hlater⟩ := @hpoll { team' with
          threads := team'.threads.set j (.requester call' (.polling g)) } rfl
          (List.getElem?_set_self hlt)
        exact ⟨_, later, _, Machine.run_append_of_eq (Machine.run_go hj' hmove) hrun, hlater⟩
    | starting | claiming | returned via result | abandoned g =>
        simp [FillPc.attached, FillPc.fills] at hattached
    | opening g rest | reading g stream | inserting g stream | publishing g stream
      | releasing g result | announcing g result =>
        -- only the filler is responsible for it
        obtain rfl : g = fill := by simpa [FillPc.attached, FillPc.fills] using hattached
        have howner := (hsafe.thread hj).1.owner
        have hfiller := (hsafe.thread hat).1.owner
        exact absurd (howner.symm.trans hfiller) hself

/-- **A failed fill fails whoever is late.**  Take any step in which a fill publishes its
failure.  From then on every requester that goes through it is told `Ok` for the slices it
stored and an error for the others, exactly if at that step nobody who still waits for it, nor
the filler itself, wants a slice it stored. -/
theorem failed_fill_iff {objects : ObjectIndex} {store : SliceKey → Option SliceValue} {fresh : ℕ}
    {steps : List (Step FillThread FillChoice)}
    (hrun : (fillMachine cfg).run (FillTeam.boot objects store fresh) steps = some team)
    (hat : RequesterAt team tid call (.announcing fill (.error e)))
    (hstep : (fillMachine cfg).step team (.go tid (.go choice)) = some team') :
    (∀ more later, (fillMachine cfg).run team' more = some later →
      ∀ j call' result, RequesterAt later j call' (.returned (some fill) result) →
        (later.shared.inserted fill call'.index = true ↔ result = .ok ())) ↔
    ∀ j call' pc, RequesterAt team j call' pc → pc.attached fill = true →
      team.shared.inserted fill call'.index = false := by
  have hsafe := FillTeam.safe_of_run hrun
  have hsafe' := (fillMachine_modular cfg).step hsafe hstep
  obtain ⟨hstopped, hthreads, -⟩ := stopped_of_failed hsafe hat hstep
  constructor
  · intro htruth j call' pc hj hattached
    by_contra hstored
    obtain ⟨more, later, reason, hmore, hlater⟩ :=
      error_of_attached hsafe hat hstep hj hattached
    have hafter := (Stopped.modular cfg fill _ _ _).run ⟨⟨hsafe'.shared, hstopped⟩, hsafe'.thread⟩
      hmore
    have hsame : later.shared.inserted fill call'.index = true := by
      rw [hafter.shared.2.stored]
      simpa using hstored
    have := (htruth more later hmore j call' _ hlater).mp hsame
    cases this
  · intro hclear more later hmore j call' result hj
    have hsettled : Machine.Holds
        (fun w => w.Inv ∧
          Stopped fill (.failed (e.text cfg)) False (team.shared.inserted fill) w)
        (fun w tid t => FillThread.Ok w tid t ∧ t.Settled fill (team.shared.inserted fill))
        team' := by
      refine ⟨⟨hsafe'.shared, hstopped⟩, fun {k t} hk => ⟨hsafe'.thread hk, ?_⟩⟩
      rw [hthreads, List.getElem?_set] at hk
      split at hk
      · split at hk
        · cases hk
          intro _
          rw [hclear tid call _ hat (by simp [FillPc.attached, FillPc.fills])]
          simp
        · cases hk
      · exact settled_of_clear hsafe hat hclear hk
    have hafter := (settled_modular cfg fill _ _).run hsettled hmore
    rw [hafter.shared.2.stored]
    exact (hafter.thread hj).2 rfl

end Failed

/-- What a requester has returned. -/
def FillThread.result : FillThread → Option (Except OrchestratorError Unit)
  | .requester _ (.returned _ result) => some result
  | _ => none

namespace Scenario

/-- A connection that breaks. -/
def broken : TransportError :=
  { isConnect := false, isTimeout := false, isRequest := false, text := "connection reset" }

/-- The error with which a fill fails then. -/
def brokenOff : OrchestratorError := .upstream (.request url broken)

/-- A fill that breaks off within its first slice, up to the publication of its failure. -/
def failedEarly : List (ThreadTeam.Step FillThread FillChoice) :=
  opened (streamed [1, 2] (some broken)) ++ calls 0 [.go, .go]

/-- It fails its filler, whose slice was not stored, and whoever else may have waited. -/
theorem failed_fill_early : ∃ team team' : FillTeam,
    (fillMachine config).run emptyTeam failedEarly = some team ∧
      RequesterAt team 0 (fillCall 0 0) (.announcing firstFill (.error brokenOff)) ∧
      (fillMachine config).step team (.go 0 (.go .go)) = some team' ∧
      ∀ more later, (fillMachine config).run team' more = some later →
        ∀ j call' result, RequesterAt later j call' (.returned (some firstFill) result) →
          (later.shared.inserted firstFill call'.index = true ↔ result = .ok ()) := by
  obtain ⟨team, team', hrun, hat, hstep, hnone⟩ : ∃ team team' : FillTeam,
      (fillMachine config).run emptyTeam failedEarly = some team ∧
      RequesterAt team 0 (fillCall 0 0) (.announcing firstFill (.error brokenOff)) ∧
      (fillMachine config).step team (.go 0 (.go .go)) = some team' ∧
      team.shared.inserted firstFill = fun _ => false := ⟨_, _, rfl, rfl, rfl, rfl⟩
  refine ⟨team, team', hrun, hat, hstep, (failed_fill_iff hrun hat hstep).mpr ?_⟩
  intro j call' pc _ _
  rw [hnone]

/-- A fill that stores its first slice and then breaks off, with a second thread waiting for
that slice. -/
def failedLate : List (ThreadTeam.Step FillThread FillChoice) :=
  opened (streamed (List.replicate 4096 1) (some broken)) ++ joined 0 ++
    calls 0 [.go, .go, .go, .go, .go] ++ calls 1 [.go, .go]

/-- Both get the error, for a slice that is stored. -/
theorem failed_fill_late : ∃ team : FillTeam,
    (fillMachine config).run emptyTeam failedLate = some team ∧
      team.shared.inserted firstFill 0 = true ∧
      (team.shared.shared.store (fillCall 0 0).key).isSome = true ∧
      team.threads.map FillThread.result = [some (.error brokenOff),
        some (.error (.fill url (brokenOff.text config)))] := by
  have hrun : ((fillMachine config).run emptyTeam failedLate).map (fun team =>
      (team.shared.inserted firstFill 0, (team.shared.shared.store (fillCall 0 0).key).isSome,
        team.threads.map FillThread.result)) =
      some (true, true, [some (.error brokenOff),
        some (.error (.fill url (brokenOff.text config)))]) := by
    decide +kernel
  rw [Option.map_eq_some_iff] at hrun
  obtain ⟨team, hteam, hends⟩ := hrun
  simp only [Prod.mk.injEq] at hends
  exact ⟨team, hteam, hends⟩

end Scenario

/-! ## A fill that is abandoned -/

section Abandoned

variable {cfg : Config} {team team' later : FillTeam} {tid : ℕ} {call : FillCall} {pc : FillPc}
  {fill : FillId}

theorem FillPc.fills_of_claimed (h : pc.claimed = some fill) : pc.fills = some fill := by
  cases pc <;> first | exact h | cases h

/-- A filler that has not released its fill has it in the registry, and has not published its
end. -/
theorem FillPc.Ok.claimed {w : FillState} (hok : pc.Ok w tid call)
    (h : pc.claimed = some fill) :
    w.Registered fill ∧ ∃ count, w.shared.fills fill = .ready count := by
  cases pc with
  | opening g rest =>
      cases h
      exact ⟨hok.2.1, 0, hok.2.2.1⟩
  | reading g stream =>
      cases h
      exact ⟨hok.2.1, _, hok.2.2.1⟩
  | inserting g stream =>
      cases h
      exact ⟨hok.2.1, _, hok.2.2.1⟩
  | publishing g stream =>
      cases h
      obtain ⟨-, hreg, count, -, hfills, -⟩ := hok
      exact ⟨hreg, count, hfills⟩
  | releasing g result =>
      cases h
      obtain ⟨-, hreg, count, hfills, -⟩ := hok
      exact ⟨hreg, count, hfills⟩
  | _ => cases h

/-- What a filler that stops before its release leaves. -/
theorem stopped_of_abandoned (hsafe : FillTeam.Safe team) (hat : RequesterAt team tid call pc)
    (hclaimed : pc.claimed = some fill)
    (hstep : (fillMachine cfg).step team (.go tid .abandon) = some team') :
    ∃ count, Stopped fill (.ready count) True (team.shared.inserted fill) team'.shared := by
  obtain ⟨t, t', w', ht, hmove, rfl⟩ := Machine.step_go_iff.mp hstep
  obtain rfl : FillThread.requester call pc = t := Option.some.inj (hat.symm.trans ht)
  have hfill := FillPc.fills_of_claimed hclaimed
  simp only [fillMachine, FillThread.move, hfill, Option.map_some, Option.some.injEq,
    Prod.mk.injEq] at hmove
  obtain ⟨-, rfl⟩ := hmove
  have hok : pc.Ok team.shared tid call := hsafe.thread hat
  obtain ⟨hreg, count, hfills⟩ := hok.claimed hclaimed
  exact ⟨count, (hok.owns hfill).used, Function.update_self _ _ _, hfills,
    iff_true_intro hreg, rfl⟩

/-- The positions of `wait_for` on a fill. -/
def FillPc.waitsFor (fill : FillId) : FillPc → Prop
  | .polling g => g = fill
  | .waiting g _ => g = fill
  | _ => False

/-- A receiver whose slice an abandoned fill never published goes round for ever. -/
theorem waits_of_move {w w' : FillState} {choice : FillChoice} {t' : FillThread} {count : ℕ}
    {stored : ℕ → Bool} (hstopped : Stopped fill (.ready count) True stored w)
    (hwaits : pc.waitsFor fill) (hlate : count ≤ call.index)
    (hmove : (FillThread.requester call pc).move cfg tid choice w = some (t', w')) :
    ∃ pc', t' = .requester call pc' ∧ pc'.waitsFor fill := by
  cases FillThread.moves_of_move hmove with
  | abandon hfill => cases pc <;> first | exact absurd hwaits id | cases hfill
  | requester hpc =>
      cases hpc with
      | @told g answer hanswer =>
          obtain rfl : g = fill := hwaits
          have hverdict : (Progress.ready count).verdict call.index = none := by
            simp [Progress.verdict, Progress.covers, hlate]
          rw [hstopped.progress, hverdict] at hanswer
          cases hanswer
      | wait _ => exact ⟨_, rfl, hwaits⟩
      | wake _ => exact ⟨_, rfl, hwaits⟩
      | @closed g seen _ hclosed =>
          obtain rfl : g = fill := hwaits
          have hopen : w.isOpen g = true := by
            simp [FillState.isOpen, hstopped.registered.mpr trivial]
          rw [hopen] at hclosed
          cases hclosed
      | _ => exact absurd hwaits id

theorem waits_of_run {count : ℕ} {stored : ℕ → Bool} {more : List (Step FillThread FillChoice)}
    (hteam : Machine.Holds (fun w => w.Inv ∧ Stopped fill (.ready count) True stored w)
      (fun w tid t => FillThread.Ok w tid t) team')
    {j : ℕ} (hat : RequesterAt team' j call pc) (hwaits : pc.waitsFor fill)
    (hlate : count ≤ call.index) (hmore : (fillMachine cfg).run team' more = some later) :
    ∃ pc', RequesterAt later j call pc' ∧ pc'.waitsFor fill := by
  refine (Machine.run_induct (I := fun now : FillTeam =>
    Machine.Holds (fun w => w.Inv ∧ Stopped fill (.ready count) True stored w)
      (fun w tid t => FillThread.Ok w tid t) now ∧
    ∃ pc', RequesterAt now j call pc' ∧ pc'.waitsFor fill) ?_
    ⟨hteam, pc, hat, hwaits⟩ hmore).2
  rintro now st next ⟨hnow, pc', hpc', hwaits'⟩ hstep
  refine ⟨(Stopped.modular cfg fill _ _ stored).step hnow hstep, ?_⟩
  obtain ⟨hlt, -⟩ := List.getElem?_eq_some_iff.mp hpc'
  cases st with
  | spawn t =>
      obtain ⟨-, rfl⟩ := Machine.step_spawn_iff.mp hstep
      exact ⟨pc', (List.getElem?_append_left hlt).trans hpc', hwaits'⟩
  | go k choice =>
      obtain ⟨t, t', w', ht, hmove, rfl⟩ := Machine.step_go_iff.mp hstep
      by_cases hk : k = j
      · subst hk
        obtain rfl : FillThread.requester call pc' = t := Option.some.inj (hpc'.symm.trans ht)
        obtain ⟨pc'', rfl, hwaits''⟩ := waits_of_move hnow.shared.2 hwaits' hlate hmove
        exact ⟨pc'', List.getElem?_set_self hlt, hwaits''⟩
      · exact ⟨pc', (List.getElem?_set_ne hk).trans hpc', hwaits'⟩

/-- **An abandoned fill strands everybody.**  Let a filling task stop at any point between its
claim and its release.  In every state from then on the registry still has its fill and no
task will release it, so that every later claim of the object subscribes to it; its channel
has neither a terminal value nor is closed; and every receiver whose slice was not published
is still waiting. -/
theorem abandoned_fill_strands {objects : ObjectIndex} {store : SliceKey → Option SliceValue}
    {fresh : ℕ} {steps : List (Step FillThread FillChoice)}
    (hrun : (fillMachine cfg).run (FillTeam.boot objects store fresh) steps = some team)
    (hat : RequesterAt team tid call pc) (hclaimed : pc.claimed = some fill)
    (hstep : (fillMachine cfg).step team (.go tid .abandon) = some team') :
    ∃ count, ∀ more later, (fillMachine cfg).run team' more = some later →
      later.shared.Registered fill ∧
      (∀ j call' pc', RequesterAt later j call' pc' → pc'.fills ≠ some fill) ∧
      (∀ j call' choice, RequesterAt later j call' .claiming →
        call'.plan.object = fill.object →
        (fillMachine cfg).step later (.go j (.go choice)) = some { later with
          threads := later.threads.set j (.requester call' (.polling fill)) }) ∧
      later.shared.shared.fills fill = .ready count ∧ later.shared.isOpen fill = true ∧
      ∀ j call' pc', RequesterAt team' j call' pc' → pc'.waitsFor fill →
        count ≤ call'.index → ∃ pc'', RequesterAt later j call' pc'' ∧ pc''.waitsFor fill := by
  have hsafe := FillTeam.safe_of_run hrun
  have hsafe' := (fillMachine_modular cfg).step hsafe hstep
  obtain ⟨count, hstopped⟩ := stopped_of_abandoned hsafe hat hclaimed hstep
  have hteam : Machine.Holds
      (fun w => w.Inv ∧ Stopped fill (.ready count) True (team.shared.inserted fill) w)
      (fun w tid t => FillThread.Ok w tid t) team' := ⟨⟨hsafe'.shared, hstopped⟩, hsafe'.thread⟩
  refine ⟨count, fun more later hmore => ?_⟩
  have hafter := (Stopped.modular cfg fill _ _ _).run hteam hmore
  have hlater := hafter.shared.2
  have hreg : later.shared.Registered fill := hlater.registered.mpr trivial
  refine ⟨hreg, ?_, ?_, hlater.progress, ?_, ?_⟩
  · intro j call' pc' hj hfill
    have hok : pc'.Ok later.shared j call' := hafter.thread hj
    exact hlater.not_owns (hok.owns hfill)
  · intro j call' choice hj hobject
    rw [Machine.step_go_iff]
    refine ⟨_, _, _, hj, ?_, rfl⟩
    have hfillOf : later.shared.shared.fillOf call'.plan.object = some fill := by
      rw [hobject]
      exact hreg
    simp only [fillMachine, FillThread.move, FillPc.move, hfillOf, Option.map_some]
  · simp [FillState.isOpen, hreg]
  · intro j call' pc' hj hwaits hlate
    exact waits_of_run hteam hj hwaits hlate hmore

end Abandoned

namespace Scenario

/-- A filler in the middle of its stream, and a thread that waits for its first slice. -/
def interrupted : List (ThreadTeam.Step FillThread FillChoice) :=
  opened (streamed [1, 2] none) ++ joined 0

/-- If the filler stops there, the registry keeps its fill, and the waiter waits. -/
theorem abandoned_fill_strands_waiter : ∃ team team' : FillTeam,
    (fillMachine config).run emptyTeam interrupted = some team ∧
      (fillMachine config).step team (.go 0 .abandon) = some team' ∧
      RequesterAt team' 1 (fillCall 0 0) (.waiting firstFill 0) ∧
      ∃ count, ∀ more later, (fillMachine config).run team' more = some later →
        later.shared.Registered firstFill ∧ later.shared.isOpen firstFill = true ∧
        later.shared.shared.fills firstFill = .ready count := by
  obtain ⟨team, team', hrun, hat, hstep, hwaiter⟩ : ∃ team team' : FillTeam,
      (fillMachine config).run emptyTeam interrupted = some team ∧
      RequesterAt team 0 (fillCall 0 0) (.reading firstFill
        { chunks := [], failure := none, buffer := [1, 2], index := 0 }) ∧
      (fillMachine config).step team (.go 0 .abandon) = some team' ∧
      RequesterAt team' 1 (fillCall 0 0) (.waiting firstFill 0) :=
    ⟨_, _, rfl, rfl, rfl, rfl⟩
  obtain ⟨count, hall⟩ := abandoned_fill_strands hrun hat rfl hstep
  refine ⟨team, team', hrun, hstep, hwaiter, count, fun more later hmore => ?_⟩
  obtain ⟨hreg, -, -, hfills, hopen, -⟩ := hall more later hmore
  exact ⟨hreg, hopen, hfills⟩

/-- The filler stops; its fill is still registered and its channel open, the waiter cannot
move, and a third thread that asks for the object subscribes to it. -/
theorem fill_left_registered : ∃ team : FillTeam,
    (fillMachine config).run emptyTeam (interrupted ++ [.go 0 .abandon,
      .spawn (.requester (fillCall 0 0) .starting)] ++ calls 2 [.go, .go]) = some team ∧
      team.shared.Registered firstFill ∧ team.shared.isOpen firstFill = true ∧
      RequesterAt team 0 (fillCall 0 0) (.abandoned firstFill) ∧
      RequesterAt team 1 (fillCall 0 0) (.waiting firstFill 0) ∧
      (∀ choice, (fillMachine config).step team (.go 1 (.go choice)) = none) ∧
      RequesterAt team 2 (fillCall 0 0) (.polling firstFill) :=
  ⟨_, rfl, rfl, rfl, rfl, rfl, fun _ => rfl, rfl⟩

end Scenario

end Cachic
