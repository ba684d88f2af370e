import Cachic.Orchestrator.Process
import Cachic.Proxy.Server
import Cachic.Proxy.Shutdown

/-!
# A request from its guard to the end of its body

`handle` takes a guard, awaits `serve` and returns a response whose body is a stream.  The
guard is a local variable of `handle`, so it is dropped when the response is returned; the
stream is polled afterwards, by the connection.  `serveHead` and `Head.body` are the two
halves of `serve` on either side of that return (`serve_eq`), and `host` is the process:
requests that go through both halves, and drains, over the shared state of the cache and
the `Drain`.

As far as its drain can tell the process is `shutdown` (`host_simulates`), which is where
the count comes from.

What the drain cannot tell is whether a body that `handle` has returned is still being sent, so
`drain_waits_for_bodies` asks that there be none when it begins, and none to come.  That hypothesis
carries the weight: `Scenario.drain_leaves_body` is the run without it.  The connection is hyper's,
and stands here for nothing but polling a body, in any order, or dropping it.
-/

namespace Cachic

open Range ActionLang ThreadTeam

/-! ## The two halves of `serve` -/

/-- A response as `serve` returns it: the head, and the slices its body will be streamed
from, if it has any. -/
structure Head where
  status : ℕ
  headers : HeaderMap
  slices : Option (Plan × List ℕ)

/-- A response with nothing to stream. -/
def Head.ofStatus (status : ℕ) (headers : HeaderMap) : Head :=
  { status := status, headers := headers, slices := none }

def respondHead (cfg : Config) (hostname : String) (plan : Plan) (isHead : Bool) : Head where
  status := plan.status
  headers := plan.headers hostname
  slices := if isHead || plan.bodyLen = 0 then none else some (plan, indices cfg plan)

/-- `serve` up to its return. -/
def serveHead (cfg : Config) (hostname : String) (key : CacheKey) (url : String)
    (forwarded : HeaderMap) (rawRange ifRange : Option String) (isHead : Bool) :
    Task (Except OrchestratorError Head) := do
  match ← plan cfg key url forwarded rawRange with
  | .error (.unsatisfiable totalLen) =>
      let response := unsatisfiableResponse hostname totalLen
      return .ok (.ofStatus response.status response.headers)
  | .error e => return .error e
  | .ok first =>
      if ifRangeFails ifRange first then
        match ← plan cfg key url forwarded none with
        | .error e => return .error e
        | .ok second => return .ok (respondHead cfg hostname second isHead)
      else
        return .ok (respondHead cfg hostname first isHead)

/-- The body as the connection polls it. -/
def Head.body (cfg : Config) (url : String) (forwarded : HeaderMap) (head : Head) : Task Body :=
  match head.slices with
  | none => return .empty
  | some (plan, wanted) => sendSlices cfg plan url forwarded wanted

/-- The head and then its body. -/
def Head.response (cfg : Config) (url : String) (forwarded : HeaderMap) (head : Head) :
    Task Response := do
  let body ← head.body cfg url forwarded
  return { status := head.status, headers := head.headers, body := body }

theorem respond_eq (cfg : Config) (hostname : String) (plan : Plan) (url : String)
    (forwarded : HeaderMap) (isHead : Bool) :
    respond cfg hostname plan url forwarded isHead =
      (respondHead cfg hostname plan isHead).response cfg url forwarded := by
  by_cases hempty : (isHead || decide (plan.bodyLen = 0)) = true
  · simp only [respond, Head.response, Head.body, respondHead, hempty, if_true]
    rfl
  · simp only [respond, Head.response, Head.body, respondHead, hempty]
    rfl

/-- **`serve` is its two halves.** -/
theorem serve_eq (cfg : Config) (hostname : String) (key : CacheKey) (url : String)
    (forwarded : HeaderMap) (rawRange ifRange : Option String) (isHead : Bool) :
    serve cfg hostname key url forwarded rawRange ifRange isHead =
      (serveHead cfg hostname key url forwarded rawRange ifRange isHead >>= fun
        | .error e => return .error e
        | .ok head => do
            let response ← head.response cfg url forwarded
            return .ok response) := by
  simp only [serve, serveHead, Prog.bind_assoc]
  congr 1
  funext planned
  rcases planned with e | first
  · cases e <;> rfl
  · by_cases hfails : ifRangeFails ifRange first = true
    · simp only [hfails, if_true, Prog.bind_assoc]
      congr 1
      funext again
      rcases again with e | second
      · rfl
      · simp only [respond_eq]
        rfl
    · simp only [hfails, respond_eq]
      rfl

/-! ## The process -/

/-- A request as the connection hands it to `handle`. -/
inductive Incoming
  /-- one that is answered from the cache -/
  | cached (hostname : String) (key : CacheKey) (url : String) (forwarded : HeaderMap)
      (rawRange ifRange : Option String) (isHead : Bool)
  /-- one that `serve` answers by itself: a heartbeat, a method or a host it does not serve -/
  | direct (status : ℕ) (headers : HeaderMap)

namespace Incoming

def serve (cfg : Config) : Incoming → Task (Except OrchestratorError Head)
  | .cached hostname key url forwarded rawRange ifRange isHead =>
      serveHead cfg hostname key url forwarded rawRange ifRange isHead
  | .direct status headers => return .ok (.ofStatus status headers)

/-- What is left to produce when `handle` has returned.  An error is a text of its own. -/
def body (cfg : Config) : Incoming → Except OrchestratorError Head → Task Body
  | .cached _ _ url forwarded _ _ _, .ok head => head.body cfg url forwarded
  | _, _ => return .empty

/-- Whether the response has no body to stream, whatever the outside answers: a HEAD request, or
one that is answered directly. -/
def bodiless : Incoming → Bool
  | .cached _ _ _ _ _ _ isHead => isHead
  | .direct _ _ => true

/-- A handler that returns nothing to stream. -/
def LeavesNothing (cfg : Config) (job : Incoming) (rest : Task (Except OrchestratorError Head)) :
    Prop :=
  rest.Returns fun result => job.body cfg result = .ret .empty

theorem leavesNothing_serve (cfg : Config) {job : Incoming} (h : job.bodiless = true) :
    job.LeavesNothing cfg (job.serve cfg) := by
  cases job with
  | direct status headers => exact rfl
  | cached hostname key url forwarded rawRange ifRange isHead =>
      obtain rfl : isHead = true := h
      refine .bind _ fun planned => ?_
      rcases planned with e | first
      · cases e <;> exact rfl
      · dsimp only
        split
        · refine .bind _ fun again => ?_
          cases again <;> exact rfl
        · exact rfl

end Incoming

/-- Where a request is. -/
inductive Phase
  /-- before `enter` reads `draining` -/
  | arriving
  /-- between the two steps of `enter` -/
  | admitted
  /-- inside `handle`, with its guard -/
  | handling (rest : Task (Except OrchestratorError Head))
  /-- the guard was the last and its drop has not notified yet; `none` if the connection is
  gone -/
  | leaving (body : Option (Task Body))
  /-- the connection polls the body -/
  | streaming (body : Task Body)
  /-- the connection was dropped -/
  | closed
  /-- answered with 503 -/
  | refused

namespace Phase

/-- After the guard is gone. -/
def released : Option (Task Body) → Phase
  | some body => .streaming body
  | none => .closed

/-- The guard's drop. -/
def drop (d : Drain) (body : Option (Task Body)) : Phase :=
  if d.inflight = 1 then .leaving body else released body

/-- The phase as its drain sees it. -/
def work : Phase → Work
  | .arriving => .arriving
  | .admitted => .admitted
  | .handling _ => .live
  | .leaving _ => .leaving
  | .streaming _ => .left
  | .closed => .left
  | .refused => .refused

/-- Whether `handle` has returned a body that is not all produced. -/
def hasSlices : Phase → Bool
  | .leaving (some (.act _ _)) => true
  | .streaming (.act _ _) => true
  | _ => false

/-- Whether the request was let in and its response is not all produced. -/
def unfinished : Phase → Bool
  | .admitted => true
  | .handling _ => true
  | phase => phase.hasSlices

end Phase

/-- What the threads of the process share. -/
structure Host where
  shared : Shared
  drain : Drain

inductive HostThread
  | request (job : Incoming) (phase : Phase)
  | drainer (d : Drainer)

/-- What decides a step: the outside of an action, a connection that drops, or the deadline
of a drain. -/
inductive HostChoice
  | go
  | act (choice : Choice)
  | hangUp
  | deadline

def Phase.move (cfg : Config) (job : Incoming) : Phase → HostChoice → Host → Option (Phase × Host)
  | .arriving, .go, host => some (if host.drain.draining then .refused else .admitted, host)
  | .admitted, .go, host =>
      host.drain.increment.map fun d => (.handling (job.serve cfg), { host with drain := d })
  | .handling (.act a next), .act choice, host =>
      (exec a choice host.shared).map fun r =>
        (.handling (next r.1), { host with shared := r.2 })
  | .handling (.ret result), .go, host =>
      some (.drop host.drain (some (job.body cfg result)),
        { host with drain := host.drain.decrement })
  -- the future of `handle` is dropped with its guard
  | .handling _, .hangUp, host =>
      some (.drop host.drain none, { host with drain := host.drain.decrement })
  | .leaving body, .go, host =>
      some (.released body, { host with drain := host.drain.notifyWaiters })
  | .streaming (.act a next), .act choice, host =>
      (exec a choice host.shared).map fun r =>
        (.streaming (next r.1), { host with shared := r.2 })
  | .streaming _, .hangUp, host => some (.closed, host)
  | _, _, _ => none

namespace HostThread

def start : HostThread → Bool
  | .request _ .arriving => true
  | .drainer d => d = .starting
  | _ => false

def move (cfg : Config) (t : HostThread) (choice : HostChoice) (host : Host) :
    Option (HostThread × Host) :=
  match t with
  | .request job phase => (phase.move cfg job choice host).map fun r => (.request job r.1, r.2)
  | .drainer d =>
      let decided : Option DrainChoice :=
        match choice with
        | .go => some .go
        | .deadline => some .deadline
        | _ => none
      decided.bind fun c =>
        (d.move c host.drain).map fun r => (.drainer r.1, { host with drain := r.2 })

/-- The thread as the drain sees it. -/
def view : HostThread → DrainThread
  | .request _ phase => .work phase.work
  | .drainer d => .drainer d

/-- Whether it is a request inside `handle`. -/
def isHandling : HostThread → Bool
  | .request _ (.handling _) => true
  | _ => false

def isAdmitted : HostThread → Bool
  | .request _ .admitted => true
  | _ => false

def hasSlices : HostThread → Bool
  | .request _ phase => phase.hasSlices
  | .drainer _ => false

def unfinished : HostThread → Bool
  | .request _ phase => phase.unfinished
  | .drainer _ => false

/-- Whether a drain that begins now can tell when the thread is done: it is not between the two
steps of `enter`, it has no slices left, and if it is inside `handle` it has no body to come. -/
def coverable : HostThread → Bool
  | .request job (.handling _) => job.bodiless
  | t => !t.isAdmitted && !t.hasSlices

end HostThread

def host (cfg : Config) : Machine Host HostThread HostChoice where
  start := HostThread.start
  move := fun _ => HostThread.move cfg

/-- A process that has started over some state of the cache. -/
def Host.init (shared : Shared) : Team Host HostThread where
  shared := { shared := shared, drain := .new }
  threads := []

/-! ## The process is a `shutdown` -/

@[simp] theorem Phase.work_released (body : Option (Task Body)) :
    (Phase.released body).work = .left := by
  cases body <;> rfl

theorem Phase.work_drop (d : Drain) (body : Option (Task Body)) :
    (Phase.drop d body).work = if d.inflight = 1 then .leaving else .left := by
  unfold Phase.drop
  split
  · rfl
  · exact Phase.work_released body

variable {cfg : Config} {choice : HostChoice} {tid : ℕ} {t : HostThread}

/-- A request's step is the unit of work's, or none at all while it is inside `handle` or
streams. -/
theorem Phase.work_of_move {job : Incoming} {phase phase' : Phase} {h h' : Host}
    (hmove : phase.move cfg job choice h = some (phase', h')) :
    (phase'.work = phase.work ∧ h'.drain = h.drain) ∨
      phase.work.move h.drain = some (phase'.work, h'.drain) := by
  unfold Phase.move at hmove
  split at hmove
  · cases hmove
    right
    show some _ = some _
    cases h.drain.draining <;> rfl
  · rw [Option.map_eq_some_iff] at hmove
    obtain ⟨d, hinc, heq⟩ := hmove
    cases heq
    right
    simp only [Phase.work, Work.move, hinc, Option.map_some]
  · rw [Option.map_eq_some_iff] at hmove
    obtain ⟨r, -, heq⟩ := hmove
    cases heq
    exact .inl ⟨rfl, rfl⟩
  · cases hmove
    right
    simp only [Phase.work_drop]
    rfl
  · cases hmove
    right
    simp only [Phase.work_drop]
    rfl
  · cases hmove
    right
    simp only [Phase.work_released]
    rfl
  · rw [Option.map_eq_some_iff] at hmove
    obtain ⟨r, -, heq⟩ := hmove
    cases heq
    exact .inl ⟨rfl, rfl⟩
  · cases hmove
    exact .inl ⟨rfl, rfl⟩
  · cases hmove

/-- **Requests and drains of the process are units of work and drains of `shutdown`.** -/
theorem host_simulates (cfg : Config) :
    Machine.Simulation (host cfg) shutdown (fun _ => True) (fun _ _ _ => True) Host.drain
      HostThread.view where
  start := by
    intro t hstart
    rcases t with ⟨job, phase⟩ | d
    · cases phase <;> first | rfl | cases hstart
    · exact hstart
  move := by
    intro tid t choice h t' h' _ _ hmove
    rcases t with ⟨job, phase⟩ | d
    · simp only [host, HostThread.move, Option.map_eq_some_iff, Prod.mk.injEq] at hmove
      obtain ⟨⟨phase', e⟩, hphase, rfl, rfl⟩ := hmove
      rcases Phase.work_of_move hphase with ⟨hwork, hdrain⟩ | hwork
      · left
        exact ⟨congrArg DrainThread.work hwork, hdrain⟩
      · right
        refine ⟨.go, ?_⟩
        simp only [shutdown, HostThread.view, DrainThread.move, hwork, Option.map_some]
    · simp only [host, HostThread.move, Option.bind_eq_some_iff, Option.map_eq_some_iff,
        Prod.mk.injEq] at hmove
      obtain ⟨c, -, ⟨d', e⟩, hd, rfl, rfl⟩ := hmove
      right
      refine ⟨c, ?_⟩
      simp only [shutdown, HostThread.view, DrainThread.move, hd, Option.map_some]

/-- A thread holds a guard, as the drain sees it, exactly while it is inside `handle`. -/
theorem HostThread.isLive_view (t : HostThread) : t.view.isLive = t.isHandling := by
  rcases t with ⟨job, phase⟩ | d
  · cases phase <;> rfl
  · rfl

/-- `inflight` is the number of requests inside `handle`. -/
theorem inflight_eq_handling {shared : Shared} {steps : List (Step HostThread HostChoice)}
    {team : Team Host HostThread} (hrun : (host cfg).run (Host.init shared) steps = some team) :
    team.shared.drain.inflight = team.threads.countP HostThread.isHandling := by
  obtain ⟨steps', -, hview⟩ :=
    (host_simulates cfg).run .trivial ⟨trivial, fun _ => trivial⟩ hrun
  have htally := (DrainTeam.tally DrainTeam.init_tally hview).inflight
  have hcount : liveGuards (Machine.view Host.drain HostThread.view team) =
      team.threads.countP HostThread.isHandling := by
    unfold liveGuards Machine.view
    rw [List.countP_map]
    congr 1
    funext t
    exact t.isLive_view
  exact htally.trans hcount

theorem HostThread.drainer_of_view {threads : List HostThread} {d : Drainer}
    (h : (threads.map HostThread.view)[tid]? = some (.drainer d)) :
    threads[tid]? = some (.drainer d) := by
  rw [List.getElem?_map, Option.map_eq_some_iff] at h
  obtain ⟨t, ht, hview⟩ := h
  rcases t with ⟨job, phase⟩ | d'
  · cases hview
  · cases hview
    exact ht

/-- A request that was let in and is not finished is between the steps of `enter`, inside
`handle`, or streams. -/
theorem HostThread.unfinished_eq (t : HostThread) :
    t.unfinished = (t.isAdmitted || t.isHandling || t.hasSlices) := by
  rcases t with ⟨job, phase⟩ | d
  · cases phase <;> rfl
  · rfl

/-- The step in which a drain of the process returns `true` finds nobody inside `handle`. -/
theorem no_handling_of_returned {team team' : Team Host HostThread}
    (hcount : team'.shared.drain.inflight = team'.threads.countP HostThread.isHandling)
    (hstep : (host cfg).step team (.go tid choice) = some team')
    (hreturn : team'.threads[tid]? = some (.drainer (.returned true))) :
    ∀ t ∈ team'.threads, t.isHandling = false := by
  obtain ⟨t, t', h', ht, hmove, rfl⟩ := Machine.step_go_iff.mp hstep
  obtain rfl : t' = .drainer (.returned true) := Machine.eq_of_getElem?_set ht hreturn
  have hzero : h'.drain.inflight = 0 := by
    rcases t with ⟨job, phase⟩ | d
    · simp [host, HostThread.move, Option.map_eq_some_iff] at hmove
    · simp only [host, HostThread.move, Option.bind_eq_some_iff, Option.map_eq_some_iff,
        Prod.mk.injEq, HostThread.drainer.injEq] at hmove
      obtain ⟨c, -, ⟨d', e⟩, hd, rfl, rfl⟩ := hmove
      obtain ⟨hcountZero, rfl, -⟩ := Drainer.returned_true_of_move hd
      exact hcountZero
  intro u hu
  have hnone := List.countP_eq_zero.mp (hcount.symm.trans hzero) u hu
  simpa using hnone

/-! ## Bodies that are over before the drain begins -/

theorem HostThread.draining_of_move {t' : HostThread} {h h' : Host}
    (hmove : (host cfg).move tid t choice h = some (t', h')) (hd : h.drain.draining = true) :
    h'.drain.draining = true := by
  rcases (host_simulates cfg).move trivial trivial hmove with ⟨-, hsame⟩ | ⟨c, hview⟩
  · rw [hsame]
    exact hd
  · exact DrainThread.draining_of_move hview hd

/-- A handler that was entered with no body to come still has none. -/
def Phase.Foreseen (cfg : Config) (job : Incoming) : Phase → Prop
  | .handling rest => job.bodiless = true → job.LeavesNothing cfg rest
  | _ => True

/-- Nothing of the request is left for the connection to poll, now or when its handler
returns. -/
def Phase.Clear (cfg : Config) (job : Incoming) : Phase → Prop
  | .admitted => False
  | .handling rest => job.LeavesNothing cfg rest
  | phase => phase.hasSlices = false

section Phases

variable {cfg : Config} {job : Incoming} {phase phase' : Phase} {choice : HostChoice} {h h' : Host}
  {body : Option (Task Body)}

theorem Phase.foreseen_released : (Phase.released body).Foreseen cfg job := by
  cases body <;> trivial

theorem Phase.foreseen_drop (d : Drain) : (Phase.drop d body).Foreseen cfg job := by
  unfold Phase.drop
  split
  · trivial
  · exact foreseen_released

theorem Phase.clear_released (hbody : (Phase.leaving body).hasSlices = false) :
    (Phase.released body).Clear cfg job := by
  rcases body with _ | ⟨value⟩ | ⟨a, next⟩
  · exact rfl
  · exact rfl
  · cases hbody

theorem Phase.clear_drop (d : Drain) (hbody : (Phase.leaving body).hasSlices = false) :
    (Phase.drop d body).Clear cfg job := by
  unfold Phase.drop
  split
  · exact hbody
  · exact clear_released hbody

theorem Phase.Foreseen.move (hforeseen : phase.Foreseen cfg job)
    (hmove : phase.move cfg job choice h = some (phase', h')) : phase'.Foreseen cfg job := by
  unfold Phase.move at hmove
  split at hmove
  · cases hmove
    split <;> trivial
  · -- the guard is taken
    obtain ⟨d, -, heq⟩ := Option.map_eq_some_iff.mp hmove
    cases heq
    exact Incoming.leavesNothing_serve cfg
  · obtain ⟨r, -, heq⟩ := Option.map_eq_some_iff.mp hmove
    cases heq
    exact fun hbodiless => hforeseen hbodiless r.1
  · cases hmove
    exact foreseen_drop _
  · cases hmove
    exact foreseen_drop _
  · cases hmove
    exact foreseen_released
  · obtain ⟨r, -, heq⟩ := Option.map_eq_some_iff.mp hmove
    cases heq
    trivial
  · cases hmove
    trivial
  · cases hmove

/-- Once the process drains, what is clear stays clear: nobody new is let in. -/
theorem Phase.Clear.move (hd : h.drain.draining = true) (hclear : phase.Clear cfg job)
    (hmove : phase.move cfg job choice h = some (phase', h')) : phase'.Clear cfg job := by
  unfold Phase.move at hmove
  split at hmove
  · rw [hd] at hmove
    cases hmove
    exact rfl
  · exact hclear.elim
  · obtain ⟨r, -, heq⟩ := Option.map_eq_some_iff.mp hmove
    cases heq
    exact hclear r.1
  · -- the handler returns
    cases hmove
    refine clear_drop _ ?_
    rw [show job.body cfg _ = .ret .empty from hclear]
    rfl
  · cases hmove
    exact clear_drop _ rfl
  · cases hmove
    exact clear_released hclear
  · cases hclear
  · cases hmove
    exact rfl
  · cases hmove

end Phases

def HostThread.Foreseen (cfg : Config) : HostThread → Prop
  | .request job phase => phase.Foreseen cfg job
  | .drainer _ => True

def HostThread.Clear (cfg : Config) : HostThread → Prop
  | .request job phase => phase.Clear cfg job
  | .drainer _ => True

theorem foreseen_modular (cfg : Config) :
    (host cfg).Modular (fun _ => True) fun _ _ t => t.Foreseen cfg where
  start := by
    intro h tid t _ hstart
    rcases t with ⟨job, phase⟩ | d
    · cases phase <;> trivial
    · trivial
  own := by
    intro h h' tid t t' choice _ hforeseen hmove
    refine ⟨trivial, ?_⟩
    rcases t with ⟨job, phase⟩ | d
    · obtain ⟨⟨phase', e⟩, hphase, heq⟩ := Option.map_eq_some_iff.mp hmove
      cases heq
      exact Phase.Foreseen.move hforeseen hphase
    · obtain ⟨c, -, hmove⟩ := Option.bind_eq_some_iff.mp hmove
      obtain ⟨⟨d', e⟩, -, heq⟩ := Option.map_eq_some_iff.mp hmove
      cases heq
      trivial
  others := fun _ _ _ _ hother => hother

theorem clear_modular (cfg : Config) :
    (host cfg).Modular (fun h => h.drain.draining = true) fun _ _ t => t.Clear cfg where
  start := by
    intro h tid t _ hstart
    rcases t with ⟨job, phase⟩ | d
    · cases phase <;> first | exact rfl | cases hstart
    · trivial
  own := by
    intro h h' tid t t' choice hd hclear hmove
    refine ⟨HostThread.draining_of_move hmove hd, ?_⟩
    rcases t with ⟨job, phase⟩ | d
    · obtain ⟨⟨phase', e⟩, hphase, heq⟩ := Option.map_eq_some_iff.mp hmove
      cases heq
      exact Phase.Clear.move hd hclear hphase
    · obtain ⟨c, -, hmove⟩ := Option.bind_eq_some_iff.mp hmove
      obtain ⟨⟨d', e⟩, -, heq⟩ := Option.map_eq_some_iff.mp hmove
      cases heq
      trivial
  others := fun _ _ _ _ hother => hother

theorem HostThread.Foreseen.clear (hforeseen : t.Foreseen cfg) (hcover : t.coverable = true) :
    t.Clear cfg := by
  rcases t with ⟨job, phase⟩ | d
  · cases phase with
    | handling rest => exact hforeseen hcover
    | admitted => cases hcover
    | arriving | leaving _ | streaming _ | closed | refused =>
        simp only [coverable, isAdmitted, HostThread.hasSlices, Bool.not_false, Bool.true_and,
          Bool.not_eq_true'] at hcover
        exact hcover
  · trivial

theorem HostThread.Clear.done (hclear : t.Clear cfg) :
    t.isAdmitted = false ∧ t.hasSlices = false := by
  rcases t with ⟨job, phase⟩ | d
  · cases phase with
    | handling rest => exact ⟨rfl, rfl⟩
    | admitted => exact hclear.elim
    | arriving | leaving _ | streaming _ | closed | refused => exact ⟨rfl, hclear⟩
  · exact ⟨rfl, rfl⟩

/-- **A drain waits for handlers, not for bodies.**  In every run of the process the count is the
number of requests inside `handle`, and it says nothing of the bodies they returned.  So a drain
misses no body if at one moment after it began nobody is between the two steps of `enter`, no
response has slices left, and whoever is inside `handle` has no body to come.  From then on,
whatever arrives and however the steps interleave, no response is ever left with slices to
send, and when a drain returns `true` every request that was let in is finished. -/
theorem drain_waits_for_bodies {cfg : Config} {shared : Shared}
    {steps more : List (Step HostThread HostChoice)} {team later : Team Host HostThread}
    (hrun : (host cfg).run (Host.init shared) steps = some team)
    (hdraining : team.shared.drain.draining = true)
    (hcover : ∀ t ∈ team.threads, t.coverable = true)
    (hmore : (host cfg).run team more = some later) :
    later.shared.drain.inflight = later.threads.countP HostThread.isHandling ∧
      (∀ t ∈ later.threads, t.hasSlices = false) ∧
      ∀ tid choice team', (host cfg).step later (.go tid choice) = some team' →
        team'.threads[tid]? = some (.drainer (.returned true)) →
        ∀ t ∈ team'.threads, t.unfinished = false := by
  have hnobody : Machine.Holds (fun _ => True) (fun _ _ t => HostThread.Foreseen cfg t)
      (Host.init shared) := ⟨trivial, fun h => by simp [Host.init] at h⟩
  have hforeseen := (foreseen_modular cfg).run hnobody hrun
  have hbegun : Machine.Holds (fun h : Host => h.drain.draining = true)
      (fun _ _ t => HostThread.Clear cfg t) team :=
    ⟨hdraining, fun ht => (hforeseen.thread ht).clear (hcover _ (List.mem_of_getElem? ht))⟩
  have hclear := (clear_modular cfg).run hbegun hmore
  have hwhole : (host cfg).run (Host.init shared) (steps ++ more) = some later :=
    Machine.run_append_of_eq hrun hmore
  refine ⟨inflight_eq_handling hwhole, fun t ht => ?_, fun tid choice team' hstep hreturn => ?_⟩
  · obtain ⟨k, hk⟩ := List.getElem?_of_mem ht
    exact (hclear.thread hk).done.2
  · have hnext := (clear_modular cfg).step hclear hstep
    have hrun' : (host cfg).run (Host.init shared) (steps ++ more ++ [.go tid choice]) =
        some team' := Machine.run_append_of_eq hwhole (Machine.run_one hstep)
    have hnobody := no_handling_of_returned (inflight_eq_handling hrun') hstep hreturn
    intro t ht
    obtain ⟨k, hk⟩ := List.getElem?_of_mem ht
    have hdone := (hnext.thread hk).done
    rw [t.unfinished_eq, hnobody t ht, hdone.1, hdone.2]
    rfl

/-! ## A response that is still being sent -/

namespace Scenario

/-- A request for ten bytes of an unknown object is let in. -/
def letIn (isHead : Bool) : List (ThreadTeam.Step HostThread HostChoice) :=
  [.spawn (.request (.cached "cache" key url [] (some "bytes=0-9") none isHead) .arriving),
    .go 0 .go, .go 0 .go]

/-- The origin answers the probe, `handle` returns, and the guard, the only one, is dropped. -/
def answered : List (ThreadTeam.Step HostThread HostChoice) :=
  let answer := reply "\"v1\"" "bytes 0-9/10" (List.replicate 10 1)
  (probing answer ++ committing 1).map (fun c => .go 0 (.act c)) ++ [.go 0 .go, .go 0 .go]

/-- A drain up to its first read. -/
def drainBegins : List (ThreadTeam.Step HostThread HostChoice) :=
  [.spawn (.drainer .starting), .go 1 .go]

/-- A drain that begins when `handle` has returned, up to its return. -/
def overlooked : List (ThreadTeam.Step HostThread HostChoice) :=
  letIn false ++ answered ++ drainBegins ++ [.go 1 .go]

/-- A drain that begins while a HEAD request is inside `handle` waits for its end. -/
theorem drain_waits_for_bodies_head : ∃ team later team' : Team Host HostThread,
    (host config).run (Host.init .init) (letIn true ++ drainBegins) = some team ∧
      team.threads.map HostThread.isHandling = [true, false] ∧
      (host config).run team answered = some later ∧
      (host config).step later (.go 1 .go) = some team' ∧
      team'.threads.map HostThread.view = [.work .left, .drainer (.returned true)] ∧
      ∀ t ∈ team'.threads, t.unfinished = false := by
  have hbegun : ((host config).run (Host.init .init) (letIn true ++ drainBegins)).map (fun team =>
      (team.shared.drain.draining, team.threads.map HostThread.coverable,
        team.threads.map HostThread.isHandling)) = some (true, [true, true], [true, false]) := by
    decide +kernel
  have hends : ((host config).run (Host.init .init) (letIn true ++ drainBegins)).bind (fun team =>
      ((host config).run team answered).bind fun later =>
        ((host config).step later (.go 1 .go)).map fun team' =>
          team'.threads.map HostThread.view) =
      some [.work .left, .drainer (.returned true)] := by
    decide +kernel
  obtain ⟨team, hteam, hend⟩ := Option.bind_eq_some_iff.mp hends
  obtain ⟨later, hlater, hend⟩ := Option.bind_eq_some_iff.mp hend
  obtain ⟨team', hteam', hview⟩ := Option.map_eq_some_iff.mp hend
  rw [hteam, Option.map_some, Option.some.injEq, Prod.mk.injEq, Prod.mk.injEq] at hbegun
  obtain ⟨hdraining, hcover, hhandling⟩ := hbegun
  have hreturn : team'.threads[1]? = some (.drainer (.returned true)) :=
    HostThread.drainer_of_view (congrArg (·[1]?) hview)
  refine ⟨team, later, team', hteam, hhandling, hlater, hteam', hview, ?_⟩
  refine (drain_waits_for_bodies hteam hdraining (fun t ht => ?_) hlater).2.2 1 .go team' hteam'
    hreturn
  have hmem := List.mem_map_of_mem (f := HostThread.coverable) ht
  rw [hcover] at hmem
  simpa using hmem

/-- A drain after a GET returns `true` while the one slice of its response is not sent, and
nothing is counted. -/
theorem drain_leaves_body : ∃ team : Team Host HostThread,
    (host config).run (Host.init .init) overlooked = some team ∧
      team.threads.map HostThread.view = [.work .left, .drainer (.returned true)] ∧
      team.threads.map HostThread.hasSlices = [true, false] ∧
      team.shared.drain.inflight = 0 := by
  have hrun : ((host config).run (Host.init .init) overlooked).map
      (fun team => (team.threads.map HostThread.view, team.threads.map HostThread.hasSlices,
        team.shared.drain.inflight)) =
      some ([.work .left, .drainer (.returned true)], [true, false], 0) := by
    decide +kernel
  rw [Option.map_eq_some_iff] at hrun
  obtain ⟨team, hteam, hends⟩ := hrun
  simp only [Prod.mk.injEq] at hends
  exact ⟨team, hteam, hends⟩

end Scenario

end Cachic
