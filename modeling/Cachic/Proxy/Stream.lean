import Cachic.Lib.Buffered
import Cachic.Orchestrator.Process
import Cachic.Proxy.Server

/-!
# The body as it is streamed

`sendSlices` fetches the slices of a response one after another.  The program does not:
each slice has a task of its own, detached, and up to a read-ahead window of them run at
once, while the connection takes their results in index order.  That is a `Buffered`
stream, and its world is the whole process: other requests, their slices, the
maintenance operations and lost index entries move between two polls as they like.

A restart ends every connection with its streams, so a stream lives in one lifetime of
the process (`Process.live`).
-/

namespace Cachic

open Range ActionLang Buffered

/-! ## The stream -/

/-- The window an orchestrator keeps: at least one slice. -/
def readahead (configured : ℕ) : ℕ := max configured 1

/-- What awaiting the task of a slice gives: the part of the slice the response carries, or
an error, once the task has returned. -/
def sliceResult (url : String) (p : Process) (tid : ℕ) :
    Option (Except OrchestratorError (List UInt8)) :=
  match p.pool.threads[tid]? with
  | some (.ret (.sliced plan index result)) => some (result.bind (piece p.cfg plan url index))
  | _ => none

/-- The slices of a plan, each started as a task of the process and known by its number. -/
def bodySource (plan : Plan) (url : String) (forwarded : HeaderMap) :
    Source Process ℕ ℕ (List UInt8) OrchestratorError where
  start := fun p index =>
    (p.pool.threads.length,
      { p with pool := p.pool.spawn ((Job.slice plan url forwarded index).task p.cfg) })
  result := sliceResult url

abbrev BodyStream := Buffered.Stream ℕ ℕ (List UInt8) OrchestratorError

namespace BodyStream

/-- The bytes the connection has been given. -/
def bytes (stream : BodyStream) : List UInt8 := (stream.sent.map Prod.snd).flatten

/-- The body as the client sees it. -/
def body (stream : BodyStream) : Body where
  sent := stream.bytes
  failure :=
    match stream.ending with
    | some (.failed e) => some e
    | _ => none

end BodyStream

/-- The moves of a process within one lifetime. -/
def Process.live (p : Process) : Process.Step → Option Process
  | .restart _ _ _ => none
  | st => p.step st

/-- A body of a plan over the process that made it, after any sequence of polls, moves of
the process, and perhaps the end of the connection. -/
def streamBody (configured : ℕ) (plan : Plan) (url : String) (forwarded : HeaderMap)
    (p : Process) (moves : List (Move Process.Step)) : Option (BodyStream × Process) :=
  (bodySource plan url forwarded).run (readahead configured) Process.live
    (.new (indices p.cfg plan)) p moves

/-! ## What a lifetime keeps -/

namespace Process

/-- A move within a lifetime starts a task, lets one task perform a step, or loses index
entries. -/
theorem live_cases {p p' : Process} {st : Step} (h : p.live st = some p') :
    p.step st = some p' ∧ (∀ cfg force found, st ≠ .restart cfg force found) := by
  cases st with
  | restart cfg force found => cases h
  | _ => exact ⟨h, fun _ _ _ hne => by cases hne⟩

/-- A task is where it was, or one action further. -/
theorem thread_of_step {p p' : Process} {st : Step} (h : p.step st = some p')
    (hlife : ∀ cfg force found, st ≠ .restart cfg force found) {tid : ℕ} {t : Task Outcome}
    (ht : p.pool.threads[tid]? = some t) :
    p'.pool.threads[tid]? = some t ∨
      ∃ a next r, t = .act a next ∧ p'.pool.threads[tid]? = some (next r) := by
  have hlt : tid < p.pool.threads.length := (List.getElem?_eq_some_iff.mp ht).1
  cases st with
  | spawn job =>
      simp only [step] at h
      split at h
      · cases h
        left
        simpa [Pool.spawn, List.getElem?_append_left hlt] using ht
      · cases h
  | task other choice =>
      simp only [step, Option.map_eq_some_iff] at h
      obtain ⟨pool, hsched, rfl⟩ := h
      obtain ⟨a, next, r, s', hact, -, rfl⟩ := Pool.sched_eq_some_iff.mp hsched
      by_cases hother : other = tid
      · subst hother
        right
        rw [ht] at hact
        exact ⟨a, next, r, Option.some.inj hact, by simp [hlt]⟩
      · left
        simpa [List.getElem?_set_ne hother] using ht
  | lose ids =>
      cases h
      exact .inl ht
  | restart cfg force found => exact absurd rfl (hlife cfg force found)

theorem cfg_of_step {p p' : Process} {st : Step} (h : p.step st = some p')
    (hlife : ∀ cfg force found, st ≠ .restart cfg force found) : p'.cfg = p.cfg := by
  cases st with
  | spawn job =>
      simp only [step] at h
      split at h
      · cases h
        rfl
      · cases h
  | task tid choice =>
      simp only [step, Option.map_eq_some_iff] at h
      obtain ⟨pool, -, rfl⟩ := h
      rfl
  | lose ids =>
      cases h
      rfl
  | restart cfg force found => exact absurd rfl (hlife cfg force found)

/-- What a task has returned stays. -/
theorem results_of_step {p p' : Process} {st : Step} (h : p.step st = some p')
    (hlife : ∀ cfg force found, st ≠ .restart cfg force found) {outcome : Outcome}
    (hmem : outcome ∈ p.pool.results) : outcome ∈ p'.pool.results := by
  rw [Pool.mem_results] at hmem ⊢
  obtain ⟨tid, htid⟩ := List.getElem?_of_mem hmem
  rcases thread_of_step h hlife htid with hsame | ⟨a, next, r, hact, -⟩
  · exact List.mem_of_getElem? hsame
  · cases hact

end Process

/-! ## The stream keeps to its slices -/

section Discipline

variable {plan : Plan} {url : String} {forwarded : HeaderMap}

/-- Whatever moves, the process makes a move of its lifetime. -/
theorem step_of_goes {p p' : Process}
    (h : (bodySource plan url forwarded).Goes Process.live
      (fun p index => p.allows (.slice plan url forwarded index) = true) p p') :
    ∃ st, p.step st = some p' ∧ ∀ cfg force found, st ≠ .restart cfg force found := by
  rcases h with ⟨index, hallows, rfl⟩ | ⟨st, hlive⟩
  · refine ⟨.spawn (.slice plan url forwarded index), ?_, fun _ _ _ h => by cases h⟩
    simp only [Process.step, hallows, if_true]
    rfl
  · exact ⟨st, Process.live_cases hlive⟩

/-- The task of a slice reports that slice. -/
def SliceTask (plan : Plan) (p : Process) (index tid : ℕ) : Prop :=
  ∃ t, p.pool.threads[tid]? = some t ∧ t.Returns fun o => ∃ result, o = .sliced plan index result

theorem SliceTask.of_step {p p' : Process} {st : Process.Step} {index tid : ℕ}
    (h : p.step st = some p') (hlife : ∀ cfg force found, st ≠ .restart cfg force found)
    (htask : SliceTask plan p index tid) : SliceTask plan p' index tid := by
  obtain ⟨t, ht, hreturns⟩ := htask
  rcases Process.thread_of_step h hlife ht with hsame | ⟨a, next, r, rfl, hnext⟩
  · exact ⟨t, hsame, hreturns⟩
  · exact ⟨next r, hnext, hreturns r⟩

/-- The slices of a plan that was returned, over a process that keeps the protocol. -/
def bodyDiscipline (S : ℕ → Prop) (cfg : Config) (plan : Plan) (url : String)
    (forwarded : HeaderMap) : Discipline (bodySource plan url forwarded) Process.live where
  Sound := fun p => p.Follows S ∧ p.cfg = cfg ∧ Outcome.planned (.ok plan) ∈ p.pool.results
  Ready := fun p index => p.allows (.slice plan url forwarded index) = true
  Started := SliceTask plan
  started := by
    intro p index _
    refine ⟨(Job.slice plan url forwarded index).task p.cfg, ?_, ?_⟩
    · simp [bodySource, Pool.spawn]
    · exact Prog.Returns.bind _ fun result => ⟨result, rfl⟩
  sound_goes := by
    rintro p p' hgoes ⟨hfollows, rfl, hplanned⟩
    obtain ⟨st, hstep, hlife⟩ := step_of_goes hgoes
    obtain ⟨hfollows', hcfg, -⟩ := Process.follows_step hfollows hlife hstep
    exact ⟨hfollows', hcfg, Process.results_of_step hstep hlife hplanned⟩
  ready_goes := by
    intro p p' index hgoes hready
    obtain ⟨st, hstep, hlife⟩ := step_of_goes hgoes
    simp only [Process.allows, Bool.and_eq_true, decide_eq_true_eq] at hready ⊢
    rw [Process.cfg_of_step hstep hlife]
    exact ⟨⟨Process.results_of_step hstep hlife hready.1.1, hready.1.2⟩, hready.2⟩
  started_goes := by
    intro p p' index tid hgoes hstarted
    obtain ⟨st, hstep, hlife⟩ := step_of_goes hgoes
    exact hstarted.of_step hstep hlife
  result_goes := by
    intro p p' tid r hgoes hresult
    obtain ⟨st, hstep, hlife⟩ := step_of_goes hgoes
    simp only [bodySource, sliceResult] at hresult ⊢
    split at hresult
    · next made index result ht =>
        rcases Process.thread_of_step hstep hlife ht with hsame | ⟨a, next, r, hact, -⟩
        · rw [hsame, Process.cfg_of_step hstep hlife]
          exact hresult
        · cases hact
    · cases hresult

/-- A result of the stream is what the task of its slice returned. -/
theorem SliceTask.result {p : Process} {index tid : ℕ} (htask : SliceTask plan p index tid)
    {r : Except OrchestratorError (List UInt8)} (hr : sliceResult url p tid = some r) :
    ∃ result, Outcome.sliced plan index result ∈ p.pool.results ∧
      result.bind (piece p.cfg plan url index) = r := by
  obtain ⟨t, ht, hreturns⟩ := htask
  simp only [sliceResult, ht] at hr
  split at hr
  · next made index' result heq =>
      cases heq
      obtain ⟨result', heq⟩ := hreturns
      cases heq
      exact ⟨result, Pool.mem_results.mpr (List.mem_of_getElem? ht), Option.some.inj hr⟩
  · cases hr

end Discipline

/-- The slices of a plan have an index each, and lie across the wanted bytes. -/
theorem mem_indices_bounds {cfg : Config} {h : Hist} {plan : Plan} (hplan : PlanOk h plan)
    (haddr : plan.totalLen ≤ maxAddressableLen cfg.sliceSize) {index : ℕ}
    (hindex : index ∈ indices cfg plan) :
    index < 2 ^ 32 ∧ plan.wanted.start < (index + 1) * cfg.sliceSize ∧
      index * cfg.sliceSize ≤ plan.wanted.stop ∧ plan.wanted.start ≤ plan.wanted.stop ∧
      plan.wanted.stop < plan.totalLen := by
  by_cases hempty : plan.totalLen = 0
  · rw [indices, if_pos hempty] at hindex
    cases hindex
  · obtain ⟨horder, hstop⟩ := hplan.wanted hempty
    have hpos := cfg.sliceSize_pos
    have hlast : plan.wanted.stop / cfg.sliceSize < 2 ^ 32 := by
      rw [Nat.div_lt_iff_lt_mul hpos]
      exact lt_of_lt_of_le hstop haddr
    rw [indices, if_neg hempty, indices_plan hpos horder hlast, List.mem_range'_1] at hindex
    refine ⟨by omega, ?_, ?_, horder, hstop⟩
    · rw [← Nat.div_lt_iff_lt_mul hpos]
      omega
    · rw [← Nat.le_div_iff_mul_le hpos]
      omega

/-- **Every streamed body keeps its order.**  A body of a plan that the process returned,
whatever else the process does: the slices sent, those in the window and those not started
are the plan's, in index order. -/
theorem streamBody_ordered {S : ℕ → Prop} {configured : ℕ} {plan : Plan} {url : String}
    {forwarded : HeaderMap} {p₀ p : Process} {moves : List (Move Process.Step)}
    {stream : BodyStream} (hfollows : p₀.Follows S)
    (hplanned : Outcome.planned (.ok plan) ∈ p₀.pool.results)
    (haddr : plan.totalLen ≤ maxAddressableLen p₀.cfg.sliceSize)
    (hrun : streamBody configured plan url forwarded p₀ moves = some (stream, p)) :
    stream.Ordered (bodyDiscipline S p₀.cfg plan url forwarded) (readahead configured)
      (indices p₀.cfg plan) p := by
  refine run_ordered
    (Stream.ordered_new _ ⟨hfollows, rfl, hplanned⟩ fun index hindex => ?_) hrun
  obtain ⟨hword, -, hstart, -, hstop⟩ :=
    mem_indices_bounds (hfollows.pool.result hplanned) haddr hindex
  simp only [bodyDiscipline, Process.allows, Bool.and_eq_true, decide_eq_true_eq]
  exact ⟨⟨hplanned, hword⟩, lt_of_le_of_lt hstart hstop⟩

/-! ## Small scenarios -/

namespace Scenario

/-- A request for the last byte of one slice and the first of the next, of an unknown object
of 4097 bytes. -/
def splitRequest : List Process.Step :=
  coldRequest 0 "bytes=4095-4096"
    (reply "\"v1\"" "bytes 0-4095/4097" (List.replicate 4096 0)) 2

def splitPlan : Plan := plan "\"v1\"" 4097 0 4095 4096 .miss

/-- The second slice is there before the first. -/
def outOfOrder : List (Move Process.Step) :=
  let second := [.go, .resolved (.ok ()), reply "\"v1\"" "bytes 4096-4096/4097" [1], .go]
  [.poll] ++ (tasks 2 second).map .world ++ [.poll] ++ (tasks 1 [.go]).map .world ++
    [.poll, .poll, .poll]

/-- Evaluate a run and a body that is streamed after it, and test where they end. -/
theorem exists_streamed (start : Process) (steps : List Process.Step) (configured : ℕ)
    (chosen : Plan) (moves : List (Move Process.Step))
    (P : Process → BodyStream → Process → Prop) [∀ p₀ stream p, Decidable (P p₀ stream p)]
    (h : ((start.run steps).bind fun p₀ => (streamBody configured chosen url [] p₀ moves).map
      fun r => decide (P p₀ r.1 r.2)) = some true) :
    ∃ p₀ stream p, start.run steps = some p₀ ∧
      streamBody configured chosen url [] p₀ moves = some (stream, p) ∧ P p₀ stream p := by
  rw [Option.bind_eq_some_iff] at h
  obtain ⟨p₀, hrun, h⟩ := h
  rw [Option.map_eq_some_iff] at h
  obtain ⟨⟨stream, p⟩, hstream, hP⟩ := h
  exact ⟨p₀, stream, p, hrun, hstream, of_decide_eq_true hP⟩

end Scenario

end Cachic
