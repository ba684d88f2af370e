import Cachic.Orchestrator.FillSafety

/-!
# The fill protocol does what `ensureFilled` does

`ensureFilled` waits for a fill in one step; `fillMachine` takes a step for every poll, every
chunk and every slice.  What a requester has still to do is again a program (`FillPc.rest`).
A move is the next action of that program or leaves it as it is
(`FillPc.Moves.refines`), so every run of the machine is a run of the programs
(`fills_refine_tasks`), and what is proved of `ensureFilled` in one step is not an artefact of
that step.

This is about runs in which no filling task is dropped (`steadyMachine`).  A waiter whose
fill is dropped may be told so by the closed channel, an answer `Act.fillWait` does not have.
-/

namespace Cachic

open Range ActionLang ThreadTeam FillState

/-! ## What is left to do -/

/-- Wait for the fill of another requester. -/
def awaitFill (call : FillCall) (fill : FillId) : Task (Except OrchestratorError Unit) := do
  let answer ← ask (.fillWait fill call.index)
  return subscriberResult call.url answer

/-- Publish the end of a fill. -/
def announceFill (cfg : Config) (call : FillCall) (fill : FillId)
    (result : Except OrchestratorError ℕ) : Task (Except OrchestratorError Unit) := do
  let _ ← ask (.fillPublish fill (terminalOf cfg result))
  return fillerResult call.url call.index result

/-- End a fill. -/
def endFill (cfg : Config) (call : FillCall) (fill : FillId)
    (result : Except OrchestratorError ℕ) : Task (Except OrchestratorError Unit) := do
  let _ ← ask (.fillRelease call.plan.object)
  announceFill cfg call fill result

/-- The end of `runFill`, behind the stream. -/
def lastSlice (cfg : Config) (call : FillCall) (fill : FillId) (failure : Option TransportError)
    (left : List UInt8 × ℕ) : Task (Except OrchestratorError ℕ) :=
  match failure with
  | some source => return .error (.upstream (.request call.url source))
  | none =>
      if left.1 = [] then return .ok left.2
      else do
        let value : SliceValue :=
          { header := headerFor call.plan.info cfg.sliceSize, payload := left.1 }
        let _ ← ask (.storeInsert (call.plan.sliceKey left.2) value .fill)
        let next := wrapAdd 32 left.2 1
        let _ ← ask (.fillPublish fill (.ready next))
        return .ok next

/-- The rest of the loop over the chunks, from its head. -/
def Streaming.looping (cfg : Config) (call : FillCall) (fill : FillId) (stream : Streaming) :
    Task (Except OrchestratorError ℕ) :=
  fillChunks call.plan fill cfg.sliceSize stream.chunks stream.buffer stream.index >>=
    lastSlice cfg call fill stream.failure

/-- The same, from the head of the inner loop. -/
def Streaming.cutting (cfg : Config) (call : FillCall) (fill : FillId) (stream : Streaming) :
    Task (Except OrchestratorError ℕ) :=
  cutSlices call.plan fill cfg.sliceSize (stream.buffer.length / cfg.sliceSize) stream.buffer
    stream.index >>= fun left =>
      ({ stream with buffer := left.1, index := left.2 } : Streaming).looping cfg call fill

/-- `runFill`, once the stream is open or refused. -/
def streamOpened (cfg : Config) (call : FillCall) (fill : FillId) :
    Except UpstreamError (List (List UInt8) × Option TransportError) →
      Task (Except OrchestratorError ℕ)
  | .error e => return .error (.upstream e)
  | .ok (chunks, failure) =>
      ({ chunks := chunks, failure := failure, buffer := [], index := 0 } : Streaming).looping
        cfg call fill

/-- Fill the object, or wait for whoever does. -/
def claimFill (cfg : Config) (call : FillCall) : Task (Except OrchestratorError Unit) := do
  match ← ask (.fillClaim call.plan.object) with
  | .subscriber fill => awaitFill call fill
  | .filler fill =>
      let purpose : Purpose := .fill call.plan.object (headerFor call.plan.info cfg.sliceSize)
      let opened ← fetchStream purpose call.url call.headers
      let result ← streamOpened cfg call fill opened
      endFill cfg call fill result

/-- What a requester has still to do. -/
def FillPc.rest (cfg : Config) (call : FillCall) : FillPc → Task (Except OrchestratorError Unit)
  | .starting => ensureFilled cfg call.plan call.url call.headers call.index
  | .claiming => claimFill cfg call
  | .polling fill => awaitFill call fill
  | .waiting fill _ => awaitFill call fill
  | .opening fill rest => do
      let opened ← rest
      let result ← streamOpened cfg call fill opened
      endFill cfg call fill result
  | .reading fill stream => stream.looping cfg call fill >>= endFill cfg call fill
  | .inserting fill stream => stream.cutting cfg call fill >>= endFill cfg call fill
  | .publishing fill stream => do
      let _ ← ask (.fillPublish fill (.ready stream.index))
      let result ← stream.cutting cfg call fill
      endFill cfg call fill result
  | .releasing fill result => endFill cfg call fill result
  | .announcing fill result => announceFill cfg call fill result
  | .returned _ result => return result
  -- nothing
  | .abandoned _ => return .ok ()

def FillThread.rest (cfg : Config) : FillThread → Task (Except OrchestratorError Unit)
  | .requester call pc => pc.rest cfg call
  | .other rest => do
      rest
      return .ok ()

section Programs

variable {cfg : Config} {call : FillCall} {fill : FillId} {stream : Streaming}

theorem runFill_eq (cfg : Config) (call : FillCall) (fill : FillId) :
    runFill cfg call.plan call.url call.headers fill =
      fetchStream (.fill call.plan.object (headerFor call.plan.info cfg.sliceSize)) call.url
        call.headers >>= streamOpened cfg call fill := rfl

theorem endFill_eq (cfg : Config) (call : FillCall) (fill : FillId)
    (result : Except OrchestratorError ℕ) :
    endFill cfg call fill result = (do
      let _ ← ask (.fillRelease call.plan.object)
      match result with
      | .ok count =>
          let _ ← ask (.fillPublish fill (.complete count))
          if call.index < count then return .ok ()
          else return .error (.fill call.url
            s!"fill produced {count} slices; slice {call.index} was never reached")
      | .error e =>
          let _ ← ask (.fillPublish fill (.failed (e.text cfg)))
          return .error e) := by
  unfold endFill announceFill
  congr 1
  funext _
  cases result with
  | error e => rfl
  | ok count =>
      show Prog.act _ _ = Prog.act _ _
      congr 1
      funext _
      simp only [fillerResult]
      split <;> rfl

/-- `ensureFilled` in the pieces above. -/
theorem ensureFilled_eq (cfg : Config) (call : FillCall) :
    ensureFilled cfg call.plan call.url call.headers call.index = (do
      if ← ask (.storeContains call.key) then return .ok ()
      else claimFill cfg call) := by
  unfold ensureFilled claimFill
  congr 1
  funext stored
  split
  · rfl
  · congr 1
    funext role
    rcases role with fill | fill
    · dsimp only
      rw [runFill_eq, Prog.bind_assoc]
      congr 1
      funext opened
      congr 1
      funext result
      exact (endFill_eq cfg call fill result).symm
    · dsimp only
      unfold awaitFill
      congr 1
      funext answer
      rcases answer with reason | ⟨⟩
      · rfl
      · rfl

/-- Less than a slice is not cut. -/
theorem Streaming.cutting_of_lt (h : stream.buffer.length < cfg.sliceSize) :
    stream.cutting cfg call fill = stream.looping cfg call fill := by
  unfold Streaming.cutting
  rw [Nat.div_eq_of_lt h]
  rfl

/-- A whole slice is cut off. -/
theorem Streaming.cutting_of_le (h : cfg.sliceSize ≤ stream.buffer.length) :
    stream.cutting cfg call fill = (do
      let _ ← ask (.storeInsert (call.plan.sliceKey stream.index) (stream.front cfg call.plan)
        .fill)
      let _ ← ask (.fillPublish fill (.ready (stream.cut cfg).index))
      (stream.cut cfg).cutting cfg call fill) := by
  have hcount : stream.buffer.length / cfg.sliceSize =
      (stream.buffer.drop cfg.sliceSize).length / cfg.sliceSize + 1 := by
    rw [List.length_drop]
    exact Nat.div_eq_sub_div cfg.sliceSize_pos h
  unfold Streaming.cutting
  rw [hcount]
  rfl

/-- What is left behind the stream is a slice of its own. -/
theorem Streaming.looping_last (hchunks : stream.chunks = []) (hfailure : stream.failure = none)
    (hbuffer : stream.buffer ≠ []) (hshort : stream.buffer.length < cfg.sliceSize) :
    stream.looping cfg call fill = (do
      let _ ← ask (.storeInsert (call.plan.sliceKey stream.index) (stream.front cfg call.plan)
        .fill)
      let _ ← ask (.fillPublish fill (.ready (stream.cut cfg).index))
      (stream.cut cfg).cutting cfg call fill) := by
  have hfront : stream.front cfg call.plan =
      { header := headerFor call.plan.info cfg.sliceSize, payload := stream.buffer } := by
    rw [Streaming.front, List.take_of_length_le hshort.le]
  have hcut : (stream.cut cfg).buffer = [] := List.drop_eq_nil_of_le hshort.le
  have hend : (stream.cut cfg).cutting cfg call fill = return .ok (stream.cut cfg).index := by
    rw [Streaming.cutting_of_lt (by rw [hcut]; exact cfg.sliceSize_pos)]
    have hchunks' : (stream.cut cfg).chunks = [] := hchunks
    have hfailure' : (stream.cut cfg).failure = none := hfailure
    simp only [Streaming.looping, hchunks', hfailure', hcut, fillChunks, lastSlice,
      Prog.pure_eq_ret, Prog.ret_bind, if_true]
  rw [hend, hfront]
  simp only [Streaming.looping, hchunks, hfailure, fillChunks, lastSlice, hbuffer,
    Prog.pure_eq_ret, Prog.ret_bind, if_false]
  rfl

/-- A slice that is cut off is stored and published. -/
theorem Streaming.cutting_eq (h : stream.buffer.length < cfg.sliceSize →
    stream.chunks = [] ∧ stream.failure = none ∧ stream.buffer ≠ []) :
    stream.cutting cfg call fill = (do
      let _ ← ask (.storeInsert (call.plan.sliceKey stream.index) (stream.front cfg call.plan)
        .fill)
      let _ ← ask (.fillPublish fill (.ready (stream.cut cfg).index))
      (stream.cut cfg).cutting cfg call fill) := by
  rcases Nat.lt_or_ge stream.buffer.length cfg.sliceSize with hlt | hge
  · obtain ⟨hchunks, hfailure, hbuffer⟩ := h hlt
    rw [Streaming.cutting_of_lt hlt, Streaming.looping_last hchunks hfailure hbuffer hlt]
  · exact Streaming.cutting_of_le hge

theorem Streaming.rest_resume (call : FillCall) (stream : Streaming) :
    (stream.resume cfg fill).rest cfg call =
      stream.cutting cfg call fill >>= endFill cfg call fill := by
  unfold Streaming.resume
  split
  · rfl
  · next hlt =>
      rw [Streaming.cutting_of_lt (not_le.mp hlt)]
      rfl

/-- Reading on does not change what is left to do. -/
theorem Streaming.rest_read (call : FillCall) (stream : Streaming)
    (h : stream.buffer.length < cfg.sliceSize) :
    (stream.read cfg fill call.url).rest cfg call =
      stream.looping cfg call fill >>= endFill cfg call fill := by
  obtain ⟨chunks, failure, buffer, index⟩ := stream
  cases chunks with
  | cons chunk rest =>
      have hloop : Streaming.looping cfg call fill ⟨chunk :: rest, failure, buffer, index⟩ =
          Streaming.cutting cfg call fill ⟨rest, failure, buffer ++ chunk, index⟩ := by
        unfold Streaming.looping Streaming.cutting fillChunks
        rw [Prog.bind_assoc]
        rfl
      rw [hloop]
      exact Streaming.rest_resume call ⟨rest, failure, buffer ++ chunk, index⟩
  | nil =>
      cases failure with
      | some source => rfl
      | none =>
          rw [← Streaming.cutting_of_lt h]
          simp only [Streaming.read]
          split
          · next hempty =>
              rw [Streaming.cutting_of_lt h]
              subst hempty
              rfl
          · rfl

end Programs

/-! ## The two machines -/

/-- The requesters and the other tasks, none of which is dropped. -/
def steadyMachine (cfg : Config) : Machine FillState FillThread Choice where
  start := FillThread.start
  move := fun tid t choice => t.move cfg tid (.go choice)

/-- One of its steps, as a step of `fillMachine`. -/
def undropped : Step FillThread Choice → Step FillThread FillChoice
  | .spawn t => .spawn t
  | .go tid choice => .go tid (.go choice)

/-- Its runs are the runs of `fillMachine` in which nothing is dropped. -/
theorem steadyMachine_run (cfg : Config) (team : FillTeam) (steps : List (Step FillThread Choice)) :
    (steadyMachine cfg).run team steps = (fillMachine cfg).run team (steps.map undropped) := by
  induction steps generalizing team with
  | nil => rfl
  | cons st rest ih =>
      have hstep : (steadyMachine cfg).step team st =
          (fillMachine cfg).step team (undropped st) := by
        cases st <;> rfl
      rw [List.map_cons, Machine.run, Machine.run, hstep]
      congr 1
      funext next
      exact ih next

/-- Tasks of the process, each performing its next action. -/
def taskMachine : Machine Shared (Task (Except OrchestratorError Unit)) Choice where
  start := fun _ => true
  move := fun _ task choice s =>
    match task with
    | .ret _ => none
    | .act a next => (exec a choice s).map fun r => (next r.1, r.2)

/-- The first action of a task. -/
theorem taskMachine_act {tid : ℕ} {a : Act} {choice : Choice} {s s' : Shared} {r : a.Res}
    {next : a.Res → Task (Except OrchestratorError Unit)}
    {task' : Task (Except OrchestratorError Unit)} (hexec : exec a choice s = some (r, s'))
    (hnext : next r = task') : taskMachine.move tid (.act a next) choice s = some (task', s') := by
  simp only [taskMachine, hexec, Option.map_some, hnext]

/-! ## While no fill is dropped -/

/-- The task that works on the fill has it, or has published its end. -/
def FillState.Live (w : FillState) (fill : FillId) : Prop :=
  w.held fill = true ∨ (w.shared.fills fill).isTerminal = true

/-- What a position is sure of while no fill is dropped. -/
def FillPc.Steady (cfg : Config) (w : FillState) : FillPc → Prop
  | .polling fill => w.Live fill
  | .waiting fill _ => w.Live fill
  | .reading _ stream => stream.buffer.length < cfg.sliceSize
  -- a short slice is the last
  | .inserting _ stream => stream.buffer.length < cfg.sliceSize →
      stream.chunks = [] ∧ stream.failure = none ∧ stream.buffer ≠ []
  | .abandoned _ => False
  | _ => True

def FillThread.Steady (cfg : Config) (w : FillState) : FillThread → Prop
  | .requester _ pc => pc.Steady cfg w
  | .other _ => True

/-- Every fill of the registry is live. -/
def FillState.Steady (w : FillState) : Prop := ∀ fill, w.Registered fill → w.Live fill

section Steady

variable {cfg : Config} {w w' : FillState} {tid : ℕ} {call : FillCall} {pc pc' : FillPc}
  {fill : FillId}

theorem FillPc.Steady.mono (hlive : ∀ fill, w.Live fill → w'.Live fill)
    (h : pc.Steady cfg w) : pc.Steady cfg w' := by
  cases pc with
  | polling fill => exact hlive fill h
  | waiting fill seen => exact hlive fill h
  | _ => exact h

theorem Streaming.steady_read (stream : Streaming) (url : String) :
    (stream.read cfg fill url).Steady cfg w := by
  unfold Streaming.read
  split
  · dsimp only
    split
    · next hle => exact fun hlt => absurd hle (not_le.mpr hlt)
    · next hlt => exact not_le.mp hlt
  · next hchunks =>
      split
      · trivial
      · next hfailure =>
          split
          · trivial
          · next hbuffer => exact fun _ => ⟨hchunks, hfailure, hbuffer⟩

theorem Streaming.steady_resume (stream : Streaming) :
    (stream.resume cfg fill).Steady cfg w := by
  unfold Streaming.resume
  split
  · next hle => exact fun hlt => absurd hle (not_le.mpr hlt)
  · next hlt => exact not_le.mp hlt

/-- A fill is live through every step outside the fills. -/
theorem FillState.Live.next {shared : Shared} (hfills : shared.fills = w.shared.fills)
    (h : w.Live fill) : (w.next shared).Live fill := by
  rcases h with hheld | hterminal
  · exact .inl hheld
  · right
    show (shared.fills fill).isTerminal = true
    rw [hfills]
    exact hterminal

/-- **A live fill stays live**: the task that works on it lets go of it in the step that
publishes its end. -/
theorem FillPc.Moves.live (hmoves : pc.Moves cfg tid call w pc' w') (hok : pc.Ok w tid call)
    (h : w.Live fill) : w'.Live fill := by
  cases hmoves with
  | @found choice _ => exact h.next (@Part.same_settle .fills nofun w.shared call.key choice).2
  | @missing choice _ => exact h.next (@Part.same_settle .fills nofun w.shared call.key choice).2
  | claim _ =>
      rcases h with hheld | hterminal
      · left
        simp only [FillState.claim, Function.update_apply, hheld, ite_self]
      · exact .inr hterminal
  | network hexec =>
      obtain rfl := exec_network hok.2.2.2.1 hexec
      exact h.next rfl
  | @publish g stream =>
      by_cases hg : fill = g
      · subst hg
        exact .inl hok.1.held
      · simpa [FillState.Live, FillState.publish, hg] using h
  | @announce g result =>
      by_cases hg : fill = g
      · subst hg
        right
        cases result <;> simp [FillState.publish, terminalOf, Progress.isTerminal]
      · simpa [FillState.Live, FillState.publish, FillState.letGo, hg] using h
  | _ => exact h

/-- What a step registers was registered before, or is claimed in it. -/
theorem FillPc.Moves.registered (hmoves : pc.Moves cfg tid call w pc' w')
    (hok : pc.Ok w tid call) (h : w'.Registered fill) :
    w.Registered fill ∨ w'.held fill = true := by
  cases hmoves with
  | @found choice _ =>
      unfold Registered FillState.next at h
      rw [(@Part.same_settle .fills nofun w.shared call.key choice).1] at h
      exact .inl h
  | @missing choice _ =>
      unfold Registered FillState.next at h
      rw [(@Part.same_settle .fills nofun w.shared call.key choice).1] at h
      exact .inl h
  | claim _ =>
      by_cases hobject : fill.object = call.plan.object
      · right
        have hfill : ⟨call.plan.object, w.shared.fresh⟩ = fill := by
          simpa [Registered, FillState.claim, hobject] using h
        rw [← hfill]
        exact Function.update_self _ _ _
      · left
        simpa [Registered, FillState.claim, hobject] using h
  | network hexec =>
      obtain rfl := exec_network hok.2.2.2.1 hexec
      exact .inl h
  | release => exact .inl (registered_release.mp h).1
  | _ => exact .inl h

/-- **What one step of a requester keeps**, while no fill is dropped. -/
theorem FillPc.Moves.steady (hmoves : pc.Moves cfg tid call w pc' w') (hinv : w.Inv)
    (hok : pc.Ok w tid call) (hw : w.Steady) (h : pc.Steady cfg w) :
    w'.Steady ∧ pc'.Steady cfg w' := by
  refine ⟨fun g hg => ?_, ?_⟩
  · rcases hmoves.registered hok hg with hold | hheld
    · exact hmoves.live hok (hw g hold)
    · exact .inl hheld
  · cases hmoves with
    | @subscribe g hfill =>
        refine hw g ?_
        unfold Registered
        rw [(hinv.registered hfill).1]
        exact hfill
    | wait _ => exact h
    | wake _ => exact h
    | opened => exact cfg.sliceSize_pos
    | read => exact Streaming.steady_read _ _
    | publish => exact Streaming.steady_resume _
    | _ => trivial

/-- A live fill does not close its channel on a waiter. -/
theorem FillState.Live.isOpen (hlive : w.Live fill) {seen : ℕ}
    (hok : (FillPc.waiting fill seen).Ok w tid call) (hsame : w.version fill ≤ seen) :
    w.isOpen fill = true := by
  rcases hlive with hheld | hterminal
  · rw [FillState.isOpen, hheld, Bool.true_or]
  · exact absurd (waiter_is_woken tid hok hterminal) (not_lt.mpr hsame)

/-! ## One step -/

/-- **A move of a requester is the next action of what it has still to do**, or changes
neither that nor the process's state. -/
theorem FillPc.Moves.refines (hmoves : pc.Moves cfg tid call w pc' w') (hok : pc.Ok w tid call)
    (h : pc.Steady cfg w) :
    (pc'.rest cfg call = pc.rest cfg call ∧ w'.shared = w.shared) ∨
      ∃ choice, taskMachine.move tid (pc.rest cfg call) choice w.shared =
        some (pc'.rest cfg call, w'.shared) := by
  cases hmoves with
  | @found choice hstored =>
      right
      rw [FillPc.rest, ensureFilled_eq]
      exact ⟨choice, taskMachine_act rfl (if_pos hstored)⟩
  | @missing choice hmissing =>
      right
      rw [FillPc.rest, ensureFilled_eq]
      refine ⟨choice, taskMachine_act rfl (if_neg ?_)⟩
      simp [hmissing]
  | @subscribe g hfill =>
      right
      have hexec : exec (.fillClaim call.plan.object) .go w.shared =
          some (.subscriber g, w.shared) := by
        simp only [exec, hfill]
      exact ⟨.go, taskMachine_act hexec rfl⟩
  | claim hnone =>
      right
      have hexec : exec (.fillClaim call.plan.object) .go w.shared =
          some (.filler ⟨call.plan.object, w.shared.fresh⟩,
            (w.claim tid call.plan ⟨call.plan.object, w.shared.fresh⟩).shared) := by
        simp only [exec, hnone]
        rfl
      exact ⟨.go, taskMachine_act hexec rfl⟩
  | @told g answer hanswer =>
      right
      have hexec : exec (.fillWait g call.index) .go w.shared = some (answer, w.shared) := by
        simp only [exec, hanswer]
      exact ⟨.go, taskMachine_act hexec rfl⟩
  | wait _ => exact .inl ⟨rfl, rfl⟩
  | wake _ => exact .inl ⟨rfl, rfl⟩
  | closed hsame hclosed =>
      have hopen := FillState.Live.isOpen h hok hsame
      rw [hclosed] at hopen
      cases hopen
  | @network g a rest choice r shared hexec => exact .inr ⟨choice, taskMachine_act hexec rfl⟩
  | refused => exact .inl ⟨rfl, rfl⟩
  | opened => exact .inl ⟨rfl, rfl⟩
  | @read g stream => exact .inl ⟨Streaming.rest_read call stream h, rfl⟩
  | @insert g stream =>
      right
      rw [FillPc.rest, Streaming.cutting_eq h]
      exact ⟨.go, taskMachine_act rfl rfl⟩
  | @publish g stream =>
      right
      exact ⟨.go, taskMachine_act rfl (Streaming.rest_resume call stream).symm⟩
  | release => exact .inr ⟨.go, taskMachine_act rfl rfl⟩
  | announce => exact .inr ⟨.go, taskMachine_act rfl rfl⟩

end Steady

/-! ## Every run -/

section Threads

variable {cfg : Config} {w w' : FillState} {tid : ℕ} {t t' : FillThread} {choice : Choice}

/-- A thread that is not dropped makes a requester's move, or a step of another task. -/
theorem FillThread.moves_of_go (h : t.move cfg tid (.go choice) w = some (t', w')) :
    (∃ call pc pc', t = .requester call pc ∧ t' = .requester call pc' ∧
      FillPc.Moves cfg tid call w pc pc' w') ∨
    ∃ (a : Act) (rest : a.Res → Task Unit) (r : a.Res) (shared : Shared),
      t = .other (.act a rest) ∧ t' = .other (rest r) ∧ w' = w.next shared ∧
        a.onFills = false ∧ exec a choice w.shared = some (r, shared) := by
  rcases t with ⟨call, pc⟩ | ⟨⟨⟩ | ⟨a, rest⟩⟩
  · simp only [FillThread.move, Option.map_eq_some_iff, Prod.mk.injEq] at h
    obtain ⟨⟨pc', v⟩, hpc, rfl, rfl⟩ := h
    exact .inl ⟨call, pc, pc', rfl, rfl, FillPc.moves_of_move hpc⟩
  · cases h
  · simp only [FillThread.move] at h
    split at h
    · cases h
    · next hother =>
        simp only [Option.map_eq_some_iff, Prod.mk.injEq] at h
        obtain ⟨⟨r, shared⟩, hexec, rfl, rfl⟩ := h
        exact .inr ⟨a, rest, r, shared, rfl, rfl, rfl, by simpa using hother, hexec⟩

theorem FillThread.steady_of_move (hinv : w.Inv) (hok : t.Ok w tid) (hw : w.Steady)
    (h : t.Steady cfg w) (hmove : t.move cfg tid (.go choice) w = some (t', w')) :
    w'.Steady ∧ t'.Steady cfg w' ∧ ∀ fill, w.Live fill → w'.Live fill := by
  rcases FillThread.moves_of_go hmove with ⟨call, pc, pc', rfl, rfl, hmoves⟩ |
    ⟨a, rest, r, shared, rfl, rfl, rfl, hother, hexec⟩
  · obtain ⟨hw', hpc'⟩ := hmoves.steady hinv hok hw h
    exact ⟨hw', hpc', fun fill hlive => hmoves.live hok hlive⟩
  · obtain ⟨hfillOf, hfills, -⟩ := exec_not_onFills hother hexec
    refine ⟨fun g hg => (hw g ?_).next hfills, trivial, fun g hlive => hlive.next hfills⟩
    unfold Registered FillState.next at hg
    rwa [hfillOf] at hg

end Threads

theorem steadyMachine_modular (cfg : Config) :
    (steadyMachine cfg).Modular (fun w => w.Inv ∧ w.Steady)
      fun w tid t => t.Ok w tid ∧ t.Steady cfg w where
  start := by
    intro w tid t hw hstart
    refine ⟨(fillMachine_modular cfg).start hw.1 hstart, ?_⟩
    rcases t with ⟨call, pc⟩ | rest
    · cases pc with
      | starting => trivial
      | _ => cases hstart
    · trivial
  own := by
    intro w w' tid t t' choice hw h hmove
    obtain ⟨hinv, hok⟩ := (fillMachine_modular cfg).own hw.1 h.1 hmove
    obtain ⟨hw', ht', -⟩ := FillThread.steady_of_move hw.1 h.1 hw.2 h.2 hmove
    exact ⟨⟨hinv, hw'⟩, hok, ht'⟩
  others := by
    intro w w' tid t t' choice other u hw h hmove hne hu
    obtain ⟨-, -, hlive⟩ := FillThread.steady_of_move hw.1 h.1 hw.2 h.2 hmove
    refine ⟨(fillMachine_modular cfg).others hw.1 h.1 hmove hne hu.1, ?_⟩
    rcases u with ⟨call, pc⟩ | rest
    · exact FillPc.Steady.mono hlive hu.2
    · trivial

/-- The requesters and the other tasks, each seen as what it has still to do. -/
theorem steadyMachine_simulates (cfg : Config) :
    Machine.Simulation (steadyMachine cfg) taskMachine (fun w => w.Inv ∧ w.Steady)
      (fun w tid t => t.Ok w tid ∧ t.Steady cfg w) FillState.shared (FillThread.rest cfg) where
  start := fun _ => rfl
  move := by
    intro tid t choice w t' w' _ h hmove
    rcases FillThread.moves_of_go hmove with ⟨call, pc, pc', rfl, rfl, hmoves⟩ |
      ⟨a, rest, r, shared, rfl, rfl, rfl, -, hexec⟩
    · exact hmoves.refines h.1 h.2
    · exact .inr ⟨choice, taskMachine_act hexec rfl⟩

/-- **The fill protocol refines `ensureFilled`.**  Whatever the requesters of a process do,
polling and cutting slices in any interleaving, is what tasks that call `ensureFilled` do,
with the same state of the process and the same results, as long as none is dropped. -/
theorem fills_refine_tasks {cfg : Config} {index : ObjectIndex}
    {store : SliceKey → Option SliceValue} {fresh : ℕ} {steps : List (Step FillThread Choice)}
    {team : FillTeam}
    (hrun : (fillMachine cfg).run (FillTeam.boot index store fresh) (steps.map undropped) =
      some team) :
    ∃ steps',
      (∀ task, .spawn task ∈ steps' →
        (∃ call : FillCall, task = ensureFilled cfg call.plan call.url call.headers call.index) ∨
          ∃ other : Task Unit, task = (do other; return .ok ())) ∧
      taskMachine.run { shared := .boot index store fresh, threads := [] } steps' =
        some { shared := team.shared.shared
               threads := team.threads.map (FillThread.rest cfg) } := by
  rw [← steadyMachine_run] at hrun
  have hboot : Machine.Holds (fun w => w.Inv ∧ w.Steady)
      (fun w tid t => FillThread.Ok w tid t ∧ t.Steady cfg w)
      (FillTeam.boot index store fresh) :=
    ⟨⟨.boot index store fresh, fun _ h => by cases h⟩, fun h => by cases h⟩
  obtain ⟨steps', hmirrors, hrun'⟩ :=
    (steadyMachine_simulates cfg).run (steadyMachine_modular cfg) hboot hrun
  refine ⟨steps', fun task htask => ?_, hrun'⟩
  obtain ⟨t, hstart, rfl⟩ := hmirrors task htask
  rcases t with ⟨call, pc⟩ | rest
  · left
    cases pc with
    | starting => exact ⟨call, rfl⟩
    | _ => cases hstart
  · exact .inr ⟨rest, rfl⟩

end Cachic
