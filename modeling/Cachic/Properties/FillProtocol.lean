import Cachic.Orchestrator.FillSafety
import Cachic.Orchestrator.Process

/-!
# What a fill promises, and what its waiters get

Any number of requesters and other tasks run the fill protocol of
`Cachic.Orchestrator.Filler`, and a filling task may stop anywhere.  `fill_protocol_safe` is
the protocol's safety: one filler for an object, published counts that cover stored slices,
waiters that return `Ok` only for those, and no waiter left behind once the end of a fill is
published.  Counts are `u32`, and `index += 1` wraps in the release build, which is the one
way in which a published count goes down.

A fill stores its slices under the generation of the plan that claimed it, and the registry
knows only the object; `filled_own_generation` is what a waiter of another generation
therefore cannot rely on.
-/

namespace Cachic

open Range ActionLang ThreadTeam FillState

/-- The fill a requester has claimed and not released. -/
def FillPc.claimed : FillPc → Option FillId
  | .opening fill _ => some fill
  | .reading fill _ => some fill
  | .inserting fill _ => some fill
  | .publishing fill _ => some fill
  | .releasing fill _ => some fill
  | _ => none

/-- Thread `tid` is this call, in this position. -/
abbrev RequesterAt (team : FillTeam) (tid : ℕ) (call : FillCall) (pc : FillPc) : Prop :=
  team.threads[tid]? = some (.requester call pc)

/-- The number of slices a state of a fill announces. -/
def Progress.count : Progress → Option ℕ
  | .ready count => some count
  | .complete count => some count
  | .failed _ => none

theorem Progress.covers_of_count {progress : Progress} {count index : ℕ}
    (h : progress.count = some count) : progress.covers index = true ↔ index < count := by
  cases progress <;> simp_all [Progress.count, Progress.covers]

section Steps

variable {cfg : Config} {w w' : FillState} {tid : ℕ} {t t' : FillThread} {choice : FillChoice}

/-- Only two positions publish. -/
theorem published_of_move (h : t.Ok w tid) (hmove : t.move cfg tid choice w = some (t', w'))
    (fill : FillId) :
    w'.shared.fills fill = w.shared.fills fill ∨
      (∃ call stream, t = .requester call (.publishing fill stream) ∧
        w'.shared.fills fill = .ready stream.index) ∨
      ∃ call result, t = .requester call (.announcing fill result) ∧
        w'.shared.fills fill = terminalOf cfg result := by
  cases FillThread.moves_of_move hmove with
  | abandon _ => exact .inl rfl
  | other hother hexec => exact .inl (congrFun (exec_not_onFills hother hexec).2.1 fill)
  | requester hpc =>
      cases hpc with
      | @found choice _ =>
          exact .inl (congrFun (@Part.same_settle .fills nofun w.shared _ choice).2 fill)
      | @missing choice _ =>
          exact .inl (congrFun (@Part.same_settle .fills nofun w.shared _ choice).2 fill)
      | network hexec =>
          obtain rfl := exec_network h.2.2.2.1 hexec
          exact .inl rfl
      | @publish g stream =>
          by_cases hg : fill = g
          · subst hg
            exact .inr (.inl ⟨_, stream, rfl, Function.update_self _ _ _⟩)
          · exact .inl (Function.update_of_ne hg _ _)
      | @announce g result =>
          by_cases hg : fill = g
          · subst hg
            exact .inr (.inr ⟨_, result, rfl, Function.update_self _ _ _⟩)
          · exact .inl (Function.update_of_ne hg _ _)
      | _ => exact .inl rfl

/-- What is published was stored before, and its count has not gone down unless it wrapped. -/
theorem count_of_move (hinv : w.Inv) (h : t.Ok w tid)
    (hmove : t.move cfg tid choice w = some (t', w')) {fill : FillId} {after : ℕ}
    (hafter : (w'.shared.fills fill).count = some after) :
    (∀ index < after, w.inserted fill index = true) ∧
      ∀ before, (w.shared.fills fill).count = some before →
        (before ≤ after ↔ ¬ (before + 1 = 2 ^ 32 ∧ after = 0)) := by
  rcases published_of_move h hmove fill with hsame | ⟨call, stream, rfl, hready⟩ |
    ⟨call, result, rfl, hend⟩
  · rw [hsame] at hafter
    refine ⟨fun index hindex => hinv.covered ((Progress.covers_of_count hafter).mpr hindex), ?_⟩
    intro before hbefore
    obtain rfl : before = after := Option.some.inj (hbefore.symm.trans hafter)
    omega
  · obtain ⟨-, -, count, hlt, hfills, hinserted, hindex⟩ := h
    obtain rfl : stream.index = after := by
      rw [hready] at hafter
      exact Option.some.inj hafter
    have hwrap : stream.index = (count + 1) % 2 ^ 32 := hindex
    refine ⟨fun index hbelow => ?_, fun before hbefore => ?_⟩
    · rcases Nat.lt_or_ge index count with hold | hnew
      · exact hinv.covered ((covers_iff (.inl hfills) index).mpr hold)
      · obtain rfl : index = count := by omega
        exact hinserted
    · obtain rfl : count = before := by
        rw [hfills] at hbefore
        exact Option.some.inj hbefore
      omega
  · obtain ⟨-, -, count, hfills, hcount⟩ := h
    rcases result with e | n
    · rw [hend] at hafter
      cases hafter
    · obtain rfl := hcount n rfl
      obtain rfl : n = after := by
        rw [hend] at hafter
        exact Option.some.inj hafter
      refine ⟨fun index hindex => hinv.covered ((covers_iff (.inl hfills) index).mpr hindex), ?_⟩
      intro before hbefore
      obtain rfl : n = before := by
        rw [hfills] at hbefore
        exact Option.some.inj hbefore
      omega

/-- A fill that has ended says so for good. -/
theorem terminal_of_move (hinv : w.Inv) (h : t.Ok w tid)
    (hmove : t.move cfg tid choice w = some (t', w')) {fill : FillId}
    (hend : (w.shared.fills fill).isTerminal = true) :
    w'.shared.fills fill = w.shared.fills fill := by
  have hused : fill.serial < w.shared.fresh := by
    by_contra hunused
    rw [hinv.unused (by omega)] at hend
    cases hend
  exact ((FillThread.ok_of_move hinv h hmove).2.2.others fill hused
    (.inr (hinv.final hend).2)).progress

end Steps

/-- **The fill protocol is safe** in every interleaving, and after any number of abandoned
fills.  A count that is published goes down exactly where it wraps. -/
theorem fill_protocol_safe {cfg : Config} {objects : ObjectIndex}
    {store : SliceKey → Option SliceValue} {fresh : ℕ} {steps : List (Step FillThread FillChoice)}
    {team : FillTeam}
    (hrun : (fillMachine cfg).run (FillTeam.boot objects store fresh) steps = some team) :
    -- one filler for an object
    (∀ i j call call' pc pc' fill fill', RequesterAt team i call pc →
      RequesterAt team j call' pc' → pc.claimed = some fill → pc'.claimed = some fill' →
      fill.object = fill'.object → i = j) ∧
    -- what a step publishes was stored before it, and counts do not go down
    (∀ tid choice team', (fillMachine cfg).step team (.go tid choice) = some team' →
      ∀ fill after, (team'.shared.shared.fills fill).count = some after →
        (∀ index < after, team.shared.inserted fill index = true) ∧
        ∀ before, (team.shared.shared.fills fill).count = some before →
          (before ≤ after ↔ ¬ (before + 1 = 2 ^ 32 ∧ after = 0))) ∧
    -- a requester that waited for a fill and got `Ok` has its slice
    (∀ tid call fill, RequesterAt team tid call (.returned (some fill) (.ok ())) →
      team.shared.inserted fill call.index = true) ∧
    -- the end of a fill is final, and its receivers return at their next poll
    (∀ fill, (team.shared.shared.fills fill).isTerminal = true →
      (∀ tid choice team', (fillMachine cfg).step team (.go tid choice) = some team' →
        team'.shared.shared.fills fill = team.shared.shared.fills fill) ∧
      (∀ tid call choice, RequesterAt team tid call (.polling fill) →
        ∃ result, (fillMachine cfg).step team (.go tid (.go choice)) = some { team with
          threads := team.threads.set tid (.requester call (.returned (some fill) result)) }) ∧
      ∀ tid call seen choice, RequesterAt team tid call (.waiting fill seen) →
        (fillMachine cfg).step team (.go tid (.go choice)) = some { team with
          threads := team.threads.set tid (.requester call (.polling fill)) }) := by
  have hsafe := FillTeam.safe_of_run hrun
  have hinv := hsafe.shared
  refine ⟨?_, ?_, ?_, fun fill hend => ⟨?_, ?_, ?_⟩⟩
  · intro i j call call' pc pc' fill fill' hi hj hfill hfill' hobject
    -- both are the registry's fill of that object, which one thread has claimed
    have howns : ∀ {k call pc fill}, RequesterAt team k call pc →
        pc.claimed = some fill → team.shared.owner fill = k ∧ team.shared.Registered fill := by
      intro k call pc fill hk hclaimed
      have hok := hsafe.thread hk
      cases pc <;> cases hclaimed <;> exact ⟨hok.1.owner, hok.2.1⟩
    obtain ⟨howner, hreg⟩ := howns hi hfill
    obtain ⟨howner', hreg'⟩ := howns hj hfill'
    have heq : fill = fill' := by
      unfold Registered at hreg hreg'
      rw [hobject, hreg'] at hreg
      exact (Option.some.inj hreg).symm
    rw [← howner, ← howner', heq]
  · intro tid choice team' hstep fill after hafter
    obtain ⟨t, t', w', ht, hmove, rfl⟩ := Machine.step_go_iff.mp hstep
    exact count_of_move hinv (hsafe.thread ht) hmove hafter
  · intro tid call fill ht
    exact (hsafe.thread ht).2.1 rfl
  · intro tid choice team' hstep
    obtain ⟨t, t', w', ht, hmove, rfl⟩ := Machine.step_go_iff.mp hstep
    exact terminal_of_move hinv (hsafe.thread ht) hmove hend
  · intro tid call choice ht
    obtain ⟨answer, hanswer⟩ := poll_returns hend call.index
    refine ⟨subscriberResult call.url answer, ?_⟩
    rw [Machine.step_go_iff]
    refine ⟨_, _, _, ht, ?_, rfl⟩
    simp only [fillMachine, FillThread.move, FillPc.move, hanswer, Option.map_some]
  · intro tid call seen choice ht
    have hwoken := waiter_is_woken tid (hsafe.thread ht) hend
    rw [Machine.step_go_iff]
    refine ⟨_, _, _, ht, ?_, rfl⟩
    simp only [fillMachine, FillThread.move, FillPc.move, hwoken, if_true, Option.map_some]

namespace Scenario

/-- A call for a slice, under a plan of the given generation. -/
def fillCall (generation index : ℕ) : FillCall where
  plan := plan "\"v1\"" 4097 generation 0 4096 .miss
  url := url
  headers := []
  index := index

/-- The first fill of the process. -/
def firstFill : FillId := { object := object, serial := 0 }

/-- A stream of one chunk. -/
def streamed (chunk : List UInt8) (failure : Option TransportError) : RawResponse where
  status := 200
  headers := []
  declared := none
  chunks := [chunk]
  failure := failure

/-- Thread `tid` takes the next steps of its call, one for each choice. -/
def calls (tid : ℕ) (choices : List Choice) : List (ThreadTeam.Step FillThread FillChoice) :=
  choices.map fun choice => .go tid (.go choice)

/-- Thread 0 finds its slice missing, claims the fill and gets a stream. -/
def opened (answer : RawResponse) : List (ThreadTeam.Step FillThread FillChoice) :=
  .spawn (.requester (fillCall 0 0) .starting) ::
    calls 0 [.go, .go, .resolved (.ok ()), .reply (.ok answer), .go, .go]

/-- Thread 1 wants the same slice and comes to wait. -/
def joined (generation : ℕ) : List (ThreadTeam.Step FillThread FillChoice) :=
  .spawn (.requester (fillCall generation 0) .starting) :: calls 1 [.go, .go, .go]

/-- A fill of one short slice that a second thread waits for, up to its end. -/
def filledOne : List (ThreadTeam.Step FillThread FillChoice) :=
  opened (streamed [1, 2] none) ++ joined 0 ++ calls 0 [.go, .go, .go, .go, .go, .go]

def emptyTeam : FillTeam := FillTeam.boot .empty (fun _ => none) 0

/-- The waiter is woken by the end of the fill, and its next poll returns. -/
theorem fill_protocol_safe_once : ∃ team : FillTeam,
    (fillMachine config).run emptyTeam filledOne = some team ∧
      team.shared.shared.fills firstFill = .complete 1 ∧
      RequesterAt team 0 (fillCall 0 0) (.returned (some firstFill) (.ok ())) ∧
      team.shared.inserted firstFill 0 = true ∧
      RequesterAt team 1 (fillCall 0 0) (.waiting firstFill 0) ∧
      (fillMachine config).step team (.go 1 (.go .go)) = some { team with
        threads := team.threads.set 1 (.requester (fillCall 0 0) (.polling firstFill)) } := by
  obtain ⟨team, hrun, hend, hfiller, hwaiter⟩ : ∃ team : FillTeam,
      (fillMachine config).run emptyTeam filledOne = some team ∧
      team.shared.shared.fills firstFill = .complete 1 ∧
      RequesterAt team 0 (fillCall 0 0) (.returned (some firstFill) (.ok ())) ∧
      RequesterAt team 1 (fillCall 0 0) (.waiting firstFill 0) := ⟨_, rfl, rfl, rfl, rfl⟩
  obtain ⟨-, -, hstored, hfinal⟩ := fill_protocol_safe hrun
  have hterminal : (team.shared.shared.fills firstFill).isTerminal = true := by rw [hend]; rfl
  exact ⟨team, hrun, hend, hfiller, hstored 0 _ _ hfiller, hwaiter,
    (hfinal firstFill hterminal).2.2 1 _ 0 .go hwaiter⟩

/-! ### A count that wraps -/

/-- A filler that has `k` more slices in its buffer than the one it is about to store. -/
theorem run_cuts {call : FillCall} {fill : FillId} (k : ℕ) {w : FillState} {stream : Streaming}
    (hbuffer : (k + 1) * config.sliceSize ≤ stream.buffer.length) (hlt : stream.index < 2 ^ 32)
    (hfills : w.shared.fills fill = .ready stream.index) :
    ∃ w' stream', (fillMachine config).run
        { shared := w, threads := [.requester call (.inserting fill stream)] }
        (List.replicate (2 * k) (.go 0 (.go .go))) =
          some { shared := w', threads := [.requester call (.inserting fill stream')] } ∧
      stream'.index = (stream.index + k) % 2 ^ 32 ∧
      w'.shared.fills fill = .ready stream'.index := by
  induction k generalizing w stream with
  | zero => exact ⟨w, stream, rfl, (Nat.mod_eq_of_lt hlt).symm, hfills⟩
  | succ k ih =>
      -- store a slice and publish it; the buffer still holds one
      have hlength : (stream.cut config).buffer.length =
          stream.buffer.length - config.sliceSize := List.length_drop
      have hmul :
          (k + 1 + 1) * config.sliceSize = (k + 1) * config.sliceSize + config.sliceSize := by
        ring
      have hmore : (k + 1) * config.sliceSize ≤ (stream.cut config).buffer.length := by omega
      have hindex : (stream.cut config).index = (stream.index + 1) % 2 ^ 32 := rfl
      have hfull : config.sliceSize ≤ (stream.cut config).buffer.length := by
        have hone : config.sliceSize ≤ (k + 1) * config.sliceSize :=
          Nat.le_mul_of_pos_left _ (Nat.succ_pos k)
        omega
      have htwo : (fillMachine config).run
          { shared := w, threads := [.requester call (.inserting fill stream)] }
          [.go 0 (.go .go), .go 0 (.go .go)] =
          some { shared := (w.insert fill (call.plan.sliceKey stream.index)
                   (stream.front config call.plan)).publish fill (.ready (stream.cut config).index)
                 threads := [.requester call ((stream.cut config).resume config fill)] } := rfl
      have hresume : (stream.cut config).resume config fill = .inserting fill (stream.cut config) :=
        if_pos hfull
      rw [hresume] at htwo
      obtain ⟨w', stream', hrest, hcount, hready⟩ :=
        @ih ((w.insert fill (call.plan.sliceKey stream.index)
          (stream.front config call.plan)).publish fill (.ready (stream.cut config).index))
          (stream.cut config) hmore (by rw [hindex]; exact Nat.mod_lt _ (Nat.two_pow_pos 32))
          (Function.update_self _ _ _)
      refine ⟨w', stream', ?_, ?_, hready⟩
      · have hsplit : List.replicate (2 * (k + 1)) (ThreadTeam.Step.go 0 (FillChoice.go .go)) =
            [.go 0 (.go .go), .go 0 (.go .go)] ++
              List.replicate (2 * k) (ThreadTeam.Step.go (T := FillThread) 0 (.go .go)) := rfl
        rw [hsplit, Machine.run_append, htwo, Option.bind_some]
        exact hrest
      · rw [hcount, hindex]
        omega

/-- The stream of an object of `2 ^ 32` slices, 16 TiB here. -/
theorem published_count_wraps : ∃ (steps : List (ThreadTeam.Step FillThread FillChoice))
    (team team' : FillTeam), (fillMachine config).run emptyTeam steps = some team ∧
      (fillMachine config).step team (.go 0 (.go .go)) = some team' ∧
      team.shared.shared.fills firstFill = .ready (2 ^ 32 - 1) ∧
      team'.shared.shared.fills firstFill = .ready 0 := by
  obtain ⟨k, hk⟩ : ∃ k, k + 1 = 2 ^ 32 := ⟨4294967295, rfl⟩
  obtain ⟨chunk, hchunk⟩ : ∃ chunk : List UInt8, chunk.length = (k + 1) * config.sliceSize :=
    ⟨List.replicate ((k + 1) * config.sliceSize) 1, List.length_replicate⟩
  have hopened : ∃ w, (fillMachine config).run emptyTeam (opened (streamed chunk none)) =
      some { shared := w
             threads := [.requester (fillCall 0 0)
               (if config.sliceSize ≤ chunk.length then
                  .inserting firstFill
                    { chunks := [], failure := none, buffer := chunk, index := 0 }
                else .reading firstFill
                    { chunks := [], failure := none, buffer := chunk, index := 0 })] } ∧
      w.shared.fills firstFill = .ready 0 := ⟨_, rfl, rfl⟩
  obtain ⟨w, hopened, hfills⟩ := hopened
  have hsize : config.sliceSize ≤ chunk.length := by
    rw [hchunk]
    exact Nat.le_mul_of_pos_left _ (Nat.succ_pos k)
  rw [if_pos hsize] at hopened
  obtain ⟨w', stream', hcuts, hcount, hready⟩ := @run_cuts (fillCall 0 0) firstFill k w
    { chunks := [], failure := none, buffer := chunk, index := 0 } hchunk.ge (Nat.two_pow_pos 32)
    hfills
  -- the last slice is stored, and its publication wraps
  have hindex : stream'.index = k := by
    rw [hcount, Nat.zero_add]
    exact Nat.mod_eq_of_lt (by omega)
  have hnext : (stream'.cut config).index = 0 := by
    show (stream'.index + 1) % 2 ^ 32 = 0
    rw [hindex, hk]
    exact Nat.mod_self _
  have hinsert : (fillMachine config).run
      { shared := w', threads := [.requester (fillCall 0 0) (.inserting firstFill stream')] }
      [.go 0 (.go .go)] =
      some { shared := w'.insert firstFill ((fillCall 0 0).plan.sliceKey stream'.index)
               (stream'.front config (fillCall 0 0).plan)
             threads := [.requester (fillCall 0 0)
               (.publishing firstFill (stream'.cut config))] } := rfl
  have hrun := Machine.run_append_of_eq (Machine.run_append_of_eq hopened hcuts) hinsert
  refine ⟨_, _, _, hrun, rfl, ?_, ?_⟩
  · show w'.shared.fills firstFill = _
    rw [hready, hindex]
    congr 1
    omega
  · show Function.update w'.shared.fills firstFill (.ready (stream'.cut config).index) firstFill = _
    rw [Function.update_self, hnext]

end Scenario

/-! ## The generation of the slices -/

/-- **What a waiter can rely on**: a call that returns `Ok` has had its slice in the store if
it found it there, or if the fill it waited for or performed was claimed under its own plan's
generation. -/
theorem filled_own_generation {cfg : Config} {objects : ObjectIndex}
    {store : SliceKey → Option SliceValue} {fresh : ℕ} {steps : List (Step FillThread FillChoice)}
    {team : FillTeam}
    (hrun : (fillMachine cfg).run (FillTeam.boot objects store fresh) steps = some team)
    {tid : ℕ} {call : FillCall} {via : Option FillId}
    (hreturned : RequesterAt team tid call (.returned via (.ok ())))
    (hown : ∀ fill, via = some fill →
      team.shared.generation fill = call.plan.info.generation) :
    team.shared.written call.key = true := by
  have hsafe := FillTeam.safe_of_run hrun
  have hok := hsafe.thread hreturned
  cases via with
  | none => exact hok rfl
  | some fill =>
      obtain ⟨hfollows, hinserted, -⟩ := hok
      have hfiled := hsafe.shared.filed (hinserted rfl)
      rw [hown fill rfl, hfollows.object] at hfiled
      exact hfiled

/-- Whether a step stores a slice under `key`. -/
def Act.stores (key : SliceKey) : Act → Bool
  | .storeInsert k _ _ => k = key
  | .storeFinish flight (.ok _) => flight.key = key
  | _ => false

namespace Scenario

open Process

/-- A waiter of the same generation, after its poll. -/
theorem filled_own_generation_once : ∃ team : FillTeam,
    (fillMachine config).run emptyTeam (filledOne ++ calls 1 [.go, .go]) = some team ∧
      RequesterAt team 1 (fillCall 0 0) (.returned (some firstFill) (.ok ())) ∧
      team.shared.generation firstFill = (fillCall 0 0).plan.info.generation ∧
      team.shared.written (fillCall 0 0).key = true := by
  obtain ⟨team, hrun, hreturned, hgeneration⟩ : ∃ team : FillTeam,
      (fillMachine config).run emptyTeam (filledOne ++ calls 1 [.go, .go]) = some team ∧
      RequesterAt team 1 (fillCall 0 0) (.returned (some firstFill) (.ok ())) ∧
      team.shared.generation firstFill = (fillCall 0 0).plan.info.generation :=
    ⟨_, rfl, rfl, rfl⟩
  refine ⟨team, hrun, hreturned, hgeneration, filled_own_generation hrun hreturned ?_⟩
  rintro fill ⟨⟩
  exact hgeneration

/-- The second version of an object, sent whole whatever was asked for. -/
def secondWhole : Choice :=
  .reply (.ok
    { status := 200
      headers := [("etag", "\"v2\""), ("content-length", "1")]
      declared := some 1
      chunks := [[2]]
      failure := none })

/-- Its plan, at a generation. -/
def secondPlan (generation : ℕ) : Plan :=
  { plan "\"v2\"" 1 generation 0 0 .miss with
    info := { info "\"v2\"" 1 generation with noRanges := true } }

/-- Task `tid` fetches a slice for a plan of the first version: the origin sends the second,
and the generation is bumped. -/
def bumping (tid : ℕ) : List Step :=
  tasks tid [reply "\"v2\"" "bytes 4096-8191/8193" [2], .go, .go, .go, .go]

/-- Two fetches for a plan of the first version are under way.  One bumps the generation to 1;
the object is planned again, its origin ignores ranges, and a fill stores its only slice and
publishes it.  The other bumps the generation to 2; the object is planned once more, and the
slice is asked for while that fill is registered. -/
def otherGeneration : List Step :=
  coldRequest 0 "bytes=0-8192" (reply "\"v1\"" "bytes 0-4095/8193" [1]) 3 ++
    fetch 1 (plan "\"v1\"" 8193 0 0 8192 .miss) 1 [.go, .resolved (.ok ())] ++
    fetch 2 (plan "\"v1\"" 8193 0 0 8192 .miss) 2 [.go, .resolved (.ok ())] ++
    bumping 1 ++
    (request "bytes=0-" :: tasks 3 (probing secondWhole ++ [.go, .time 0, .go, .go, .go])) ++
    fetch 4 (secondPlan 1) 0 [.go, .go, .resolved (.ok ()), secondWhole, .go, .go] ++
    bumping 2 ++
    (request "bytes=0-" :: tasks 5 (probing secondWhole ++ [.go, .time 0, .go, .go, .go])) ++
    fetch 6 (secondPlan 2) 0 [.go, .go, .go, .go]

/-- A waiter of another generation gets `Ok` for a slice that was never stored under its own;
and the process comes to that: the slice that was reported ready is not in the store, and no
step has ever stored it. -/
theorem fill_of_other_generation :
    (∃ team : FillTeam, (fillMachine config).run emptyTeam
        (opened (streamed [1, 2] none) ++ joined 1 ++ calls 0 [.go, .go, .go, .go, .go, .go] ++
          calls 1 [.go, .go]) = some team ∧
      RequesterAt team 1 (fillCall 1 0) (.returned (some firstFill) (.ok ())) ∧
      team.shared.written (fillCall 1 0).key = false) ∧
    ∃ p, (first config).run otherGeneration = some p ∧
      Outcome.sliced (secondPlan 2) 0
        (.error (.fill url "slice 0 was reported ready but is not in the store")) ∈
          p.pool.results ∧
      p.pool.hist.all (fun e => !e.1.stores ((secondPlan 2).sliceKey 0)) = true := by
  refine ⟨⟨_, rfl, rfl, rfl⟩, ?_⟩
  exact exists_run (first config) otherGeneration (fun p =>
    Outcome.sliced (secondPlan 2) 0
      (.error (.fill url "slice 0 was reported ready but is not in the store")) ∈
        p.pool.results ∧
    p.pool.hist.all (fun e => !e.1.stores ((secondPlan 2).sliceKey 0)) = true)
    (by decide +kernel)

end Scenario

end Cachic
