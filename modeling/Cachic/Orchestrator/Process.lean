import Cachic.Config.Guard
import Cachic.Orchestrator.Specs

/-!
# The process over its data directory

A process runs any number of jobs at once: requests being planned, slices being
fetched for plans that were returned, and the maintenance operations.  Its data
directory outlives it.  `Process.step` is one move of the whole: a job starts, one
task performs its next atomic step, index entries are lost, or the process ends
and another is started over the same directory, if the configuration guard lets
it.  A run is any sequence of moves.

`Process.Follows` is what every run keeps: all tasks follow the provenance
protocol.  `Process.Sound` says more, that every resident slice is of the running
slice size and the guard file records it; that survives a restart only when the
restart does not change the size over stored slices.

What a restart finds on the disk is foyer's: any of the slices ever stored, an older value of a
key or none at all, is a choice of the step.  `KeepsSize` carries the weight in the results about
more than one lifetime.
-/

namespace Cachic

open Range ActionLang

/-! ## Jobs -/

/-- What a finished job reports. -/
inductive Outcome
  | planned (result : Except OrchestratorError Plan)
  | sliced (plan : Plan) (index : ℕ) (result : Except OrchestratorError SliceValue)
  | probed (object : ObjectId) (result : Except OrchestratorError ObjectMeta)
  | touched (id : ObjectId) (wrote : Bool)
  | invalidated (id : ObjectId) (generation : ℕ)
  | pruned (removed : ℕ)
  | purged (objects slices : ℕ)
  deriving DecidableEq

/-- What a process can be asked to do. -/
inductive Job
  | plan (key : CacheKey) (url : String) (headers : HeaderMap) (rawRange : Option String)
  | slice (plan : Plan) (url : String) (headers : HeaderMap) (index : ℕ)
  | probe (key : CacheKey) (url : String) (headers : HeaderMap) (index : ℕ)
  | touch (id : ObjectId)
  | invalidate (id : ObjectId)
  | prune (maxAge : ℕ)
  | purge (start : String)

def Job.task (cfg : Config) : Job → Task Outcome
  | .plan key url headers rawRange => do
      let result ← Cachic.plan cfg key url headers rawRange
      return .planned result
  | .slice chosen url headers index => do
      let result ← Cachic.slice cfg chosen url headers index
      return .sliced chosen index result
  | .probe key url headers index => do
      let result ← Cachic.probe cfg key (cfg.objectId key) url headers index
      return .probed (cfg.objectId key) result
  | .touch id => do
      let wrote ← Cachic.touch id
      return .touched id wrote
  | .invalidate id => do
      let generation ← Cachic.invalidate id
      return .invalidated id generation
  | .prune maxAge => do
      let removed ← Cachic.prune maxAge
      return .pruned removed
  | .purge start => do
      let (objects, slices) ← Cachic.purge cfg start
      return .purged objects slices

/-! ## The process -/

/-- The settings the guard file records for a configuration. -/
def Config.stored (cfg : Config) : Guard.StoredConfig :=
  { sliceSize := cfg.sliceSize, storeFormatVersion := Guard.storeFormatVersion }

structure Process where
  cfg : Config
  /-- The content of the guard file. -/
  file : String
  pool : Pool Act Act.Res Shared Outcome

namespace Process

/-- The first process over an empty directory. -/
def first (cfg : Config) : Process where
  cfg := cfg
  file := cfg.stored.render
  pool := { shared := Shared.init, hist := [], threads := [] }

/-- The jobs that can start now: slices are fetched for a plan that was returned,
and only slices the object has. -/
def allows (p : Process) : Job → Bool
  | .slice plan _ _ index =>
      Outcome.planned (.ok plan) ∈ p.pool.results && index < 2 ^ 32 &&
        index * p.cfg.sliceSize < plan.totalLen
  | .probe _ _ _ index => index < 2 ^ 32
  | _ => true

/-- One move. -/
inductive Step
  | spawn (job : Job)
  | task (tid : ℕ) (choice : Choice)
  | lose (ids : List ObjectId)
  | restart (cfg : Config) (force : Bool) (found : List (SliceKey × SliceValue))

/-- Whether a slice was ever stored. -/
def wasStored (h : Hist) (slice : SliceKey × SliceValue) : Bool :=
  h.any fun e =>
    match storedBy e with
    | some (key, value, _) => slice = (key, value)
    | none => false

def step (p : Process) : Step → Option Process
  | .spawn job =>
      if p.allows job then some { p with pool := p.pool.spawn (job.task p.cfg) } else none
  | .task tid choice => (p.pool.sched exec tid choice).map fun pool => { p with pool := pool }
  | .lose ids =>
      let shared := p.pool.shared
      let pool := { p.pool with shared := { shared with index := shared.index.removeAll ids } }
      some { p with pool := pool }
  | .restart cfg force found =>
      if found.all (wasStored p.pool.hist) then
        match Guard.check (some p.file) cfg.stored force with
        | .error _ => none
        | .ok file =>
            let shared := p.pool.shared
            some { cfg := cfg
                   file := file
                   pool := { shared := Shared.boot shared.index (List.lookup · found) shared.fresh
                             hist := p.pool.hist
                             threads := [] } }
      else none

theorem exists_event_of_wasStored {h : Hist} {key : SliceKey} {value : SliceValue}
    (hstored : wasStored h (key, value) = true) :
    ∃ e ∈ h, ∃ writer, storedBy e = some (key, value, writer) := by
  obtain ⟨e, he, hslice⟩ := List.any_eq_true.mp hstored
  refine ⟨e, he, ?_⟩
  cases hst : storedBy e with
  | none => simp [hst] at hslice
  | some stored =>
      obtain ⟨key', value', writer⟩ := stored
      simp only [hst, decide_eq_true_eq, Prod.mk.injEq] at hslice
      exact ⟨writer, by rw [hslice.1, hslice.2]⟩

variable {p p' : Process} {steps : List Step}

/-- What a restart does, when the guard allows it. -/
theorem restart_cases {cfg : Config} {force : Bool} {found : List (SliceKey × SliceValue)}
    (hstep : p.step (.restart cfg force found) = some p') :
    ∃ file,
      (∀ key value, List.lookup key found = some value →
        ∃ e ∈ p.pool.hist, ∃ writer, storedBy e = some (key, value, writer)) ∧
      Guard.check (some p.file) cfg.stored force = .ok file ∧
      p' = { cfg := cfg
             file := file
             pool := { shared := Shared.boot p.pool.shared.index (List.lookup · found)
                         p.pool.shared.fresh
                       hist := p.pool.hist
                       threads := [] } } := by
  simp only [step] at hstep
  split at hstep
  · next hall =>
      cases hcheck : Guard.check (some p.file) cfg.stored force with
      | error e => simp [hcheck] at hstep
      | ok file =>
          simp only [hcheck, Option.some.injEq] at hstep
          refine ⟨file, fun key value hlookup => ?_, rfl, hstep.symm⟩
          obtain ⟨before, after, hfound, -⟩ := List.lookup_eq_some_iff.mp hlookup
          exact exists_event_of_wasStored (List.all_eq_true.mp hall _ (by simp [hfound]))
  · cases hstep

/-- Any sequence of moves. -/
def run : Process → List Step → Option Process
  | p, [] => some p
  | p, step :: rest => (p.step step).bind fun p' => p'.run rest

/-- A condition on every move of a run, in the state it is made in. -/
def Along (C : Process → Step → Prop) : Process → List Step → Prop
  | _, [] => True
  | p, step :: rest => C p step ∧ ∀ p', p.step step = some p' → Along C p' rest

theorem along_of_forall {C : Process → Step → Prop} (h : ∀ p, ∀ st ∈ steps, C p st) :
    Along C p steps := by
  induction steps generalizing p with
  | nil => trivial
  | cons st rest ih =>
      exact ⟨h p st List.mem_cons_self, fun p' _ =>
        ih fun q st' hst' => h q st' (List.mem_cons_of_mem st hst')⟩

/-- What each move keeps, every run keeps. -/
theorem run_induct {C : Process → Step → Prop} {I : Process → Prop}
    (hstep : ∀ p st p', I p → C p st → p.step st = some p' → I p') (hp : I p)
    (hC : Along C p steps) (hrun : p.run steps = some p') : I p' := by
  induction steps generalizing p with
  | nil =>
      obtain rfl : p = p' := by simpa [run] using hrun
      exact hp
  | cons st rest ih =>
      rw [run, Option.bind_eq_some_iff] at hrun
      obtain ⟨q, hq, hrest⟩ := hrun
      exact ih (hstep p st q hp hC.1 hq) (hC.2 q hq) hrest

/-- What has happened stays in the history. -/
theorem hist_subset_of_step {st : Step} (h : p.step st = some p') :
    p.pool.hist ⊆ p'.pool.hist := by
  cases st with
  | spawn job =>
      simp only [step] at h
      split at h
      · cases h
        exact List.Subset.refl _
      · cases h
  | task tid choice =>
      simp only [step, Option.map_eq_some_iff] at h
      obtain ⟨pool, hsched, rfl⟩ := h
      obtain ⟨a, next, r, s', -, -, rfl⟩ := Pool.sched_eq_some_iff.mp hsched
      exact List.subset_cons_self _ _
  | lose ids =>
      cases h
      exact List.Subset.refl _
  | restart cfg force found =>
      obtain ⟨file, -, -, rfl⟩ := restart_cases h
      exact List.Subset.refl _

theorem hist_subset_of_run (h : p.run steps = some p') :
    p.pool.hist ⊆ p'.pool.hist :=
  run_induct (C := fun _ _ => True) (I := fun q => p.pool.hist ⊆ q.pool.hist)
    (fun _ _ _ hsub _ hstep => List.Subset.trans hsub (hist_subset_of_step hstep))
    (List.Subset.refl _) (along_of_forall fun _ _ _ => trivial) h

/-- The answer of an origin that a move chooses. -/
def Step.answer : Step → Option RawResponse
  | .task _ (.reply (.ok raw)) => some raw
  | _ => none

/-- An answered request was there before the move, or is the answer it chose. -/
theorem exchange_of_step {st : Step} (h : p.step st = some p') {x : Exchange}
    (hx : x ∈ exchanges p'.pool.hist) :
    x ∈ exchanges p.pool.hist ∨ st.answer = some x.raw := by
  cases st with
  | spawn job =>
      simp only [step] at h
      split at h
      · cases h
        exact .inl hx
      · cases h
  | task tid choice =>
      simp only [step, Option.map_eq_some_iff] at h
      obtain ⟨pool, hsched, rfl⟩ := h
      obtain ⟨a, next, r, s', -, hexec, rfl⟩ := Pool.sched_eq_some_iff.mp hsched
      rw [exchanges, List.mem_filterMap] at hx
      obtain ⟨e, he, hex⟩ := hx
      rcases List.mem_cons.mp he with rfl | hold
      · right
        unfold exchangeOf at hex
        split at hex
        · next purpose request raw heq =>
            cases heq
            cases hex
            cases choice <;> cases hexec
            rfl
        · cases hex
      · exact .inl (List.mem_filterMap.mpr ⟨e, hold, hex⟩)
  | lose ids =>
      cases h
      exact .inl hx
  | restart cfg force found =>
      obtain ⟨file, -, -, rfl⟩ := restart_cases h
      exact .inl hx

/-- The answers of a run are those its moves chose. -/
theorem exchange_of_run (h : p.run steps = some p') {x : Exchange}
    (hx : x ∈ exchanges p'.pool.hist) :
    x ∈ exchanges p.pool.hist ∨ x.raw ∈ steps.filterMap Step.answer := by
  induction steps generalizing p with
  | nil =>
      obtain rfl : p = p' := by simpa [run] using h
      exact .inl hx
  | cons st rest ih =>
      rw [run, Option.bind_eq_some_iff] at h
      obtain ⟨q, hq, hrest⟩ := h
      rcases ih hrest with hold | hchosen
      · rcases exchange_of_step hq hold with hold | hanswer
        · exact .inl hold
        · exact .inr (List.mem_filterMap.mpr ⟨st, List.mem_cons_self, hanswer⟩)
      · obtain ⟨other, hother, hanswer⟩ := List.mem_filterMap.mp hchosen
        exact .inr (List.mem_filterMap.mpr ⟨other, List.mem_cons_of_mem st hother, hanswer⟩)

/-- What each move keeps while all events satisfy `H`, every run keeps. -/
theorem run_induct_hist {H : Event Act Act.Res → Prop} {C : Step → Prop} {I : Process → Prop}
    (hstep : ∀ p st p', I p → C st → p.step st = some p' → (∀ e ∈ p'.pool.hist, H e) → I p')
    (hp : I p) (hC : ∀ st ∈ steps, C st) (hrun : p.run steps = some p')
    (hH : ∀ e ∈ p'.pool.hist, H e) : I p' := by
  induction steps generalizing p with
  | nil =>
      obtain rfl : p = p' := by simpa [run] using hrun
      exact hp
  | cons st rest ih =>
      rw [run, Option.bind_eq_some_iff] at hrun
      obtain ⟨q, hq, hrest⟩ := hrun
      have hHq : ∀ e ∈ q.pool.hist, H e := fun e he => hH e (hist_subset_of_run hrest he)
      exact ih (hstep p st q hp (hC st List.mem_cons_self) hq hHq)
        (fun st' hst' => hC st' (List.mem_cons_of_mem st hst')) hrest

end Process

/-! ## What every run keeps -/

/-- What a finished job's report is worth, while slices are stored at the sizes
`S`. -/
def JobPost (S : ℕ → Prop) (h : Hist) : Outcome → Prop
  | .planned (.ok plan) => PlanOk h plan
  | .sliced plan index (.ok value) => PlanOk h plan ∧ Held S h (plan.sliceKey index) value
  | _ => True

theorem jobPost_stable (S : ℕ → Prop) : Protocol.Stable (JobPost S) := by
  intro h h' outcome hsub hpost
  cases outcome with
  | planned result =>
      cases result with
      | error e => trivial
      | ok plan => exact PlanOk.mono hsub hpost
  | sliced plan index result =>
      cases result with
      | error e => trivial
      | ok value => exact ⟨hpost.1.mono hsub, hpost.2.mono hsub⟩
  | _ => trivial

namespace Process

/-- Every task follows the protocol, and every slice is stored at a size of
`S`. -/
structure Follows (S : ℕ → Prop) (p : Process) : Prop where
  pool : p.pool.Holds (provenance S) (JobPost S)
  size : S p.cfg.sliceSize

variable {p p' : Process} {S : ℕ → Prop} {cfg : Config} {steps : List Step}

theorem follows_first (hS : S cfg.sliceSize) :
    (first cfg).Follows S := by
  refine ⟨⟨⟨?_, ?_, ?_, ?_, ?_, ?_, ?_⟩, fun thread hthread => by cases hthread⟩, hS⟩
  · intro object info hget
    cases hget
  · intro cell info hcell
    cases hcell
  · intro key value hvalue
    cases hvalue
  · intro flight value hflight
    cases hflight
  · intro object cell hcell
    cases hcell
  · intro key flight hflight
    cases hflight
  · intro e he
    cases he

/-- A job that may start follows the protocol. -/
theorem wp_job (hp : p.Follows S) {job : Job} (hallow : p.allows job = true) :
    (provenance S).wp (job.task p.cfg) (JobPost S) p.pool.hist := by
  cases job with
  | plan key url headers rawRange =>
      refine Protocol.wp_bind_of (wp_plan p.cfg hp.size key url headers rawRange)
        fun h result _ hresult => ?_
      cases result with
      | error e => trivial
      | ok plan => exact hresult plan rfl
  | slice plan url headers index =>
      simp only [allows, Bool.and_eq_true, decide_eq_true_eq] at hallow
      obtain ⟨⟨hplanned, hindex⟩, hin⟩ := hallow
      have hplan : PlanOk p.pool.hist plan := hp.pool.result hplanned
      refine Protocol.wp_bind_of (wp_slice p.cfg hp.size url headers hplan hindex hin)
        fun h result hsub hresult => ?_
      cases result with
      | error e => trivial
      | ok value => exact ⟨hplan.mono hsub, hresult value rfl⟩
  | probe key url headers index =>
      simp only [allows, decide_eq_true_eq] at hallow
      exact Protocol.wp_bind_of (wp_probe p.cfg hp.size key _ url headers hallow)
        fun _ _ _ _ => trivial
  | touch id => exact Protocol.wp_bind_of (wp_touch id) fun _ _ _ _ => trivial
  | invalidate id => exact Protocol.wp_bind_of (wp_invalidate id) fun _ _ _ _ => trivial
  | prune maxAge => exact Protocol.wp_bind_of (wp_prune maxAge) fun _ _ _ _ => trivial
  | purge start => exact Protocol.wp_bind_of (wp_purge p.cfg start) fun _ _ _ _ => trivial

/-- A move within one lifetime keeps the protocol. -/
theorem follows_step {st : Step} (hp : p.Follows S)
    (hlife : ∀ cfg force found, st ≠ .restart cfg force found) (hstep : p.step st = some p') :
    p'.Follows S ∧ p'.cfg = p.cfg ∧ p'.file = p.file := by
  cases st with
  | spawn job =>
      simp only [step] at hstep
      split at hstep
      · rename_i hallow
        cases hstep
        exact ⟨⟨hp.pool.spawn (wp_job hp hallow), hp.size⟩, rfl, rfl⟩
      · cases hstep
  | task tid choice =>
      simp only [step, Option.map_eq_some_iff] at hstep
      obtain ⟨pool, hsched, rfl⟩ := hstep
      exact ⟨⟨hp.pool.sched (jobPost_stable _) hsched fun _ _ => trivial, hp.size⟩, rfl, rfl⟩
  | lose ids =>
      simp only [step, Option.some.injEq] at hstep
      subst hstep
      exact ⟨⟨hp.pool.outside (hp.pool.inv.remove ids), hp.size⟩, rfl, rfl⟩
  | restart cfg force found => exact absurd rfl (hlife cfg force found)

/-- A restart keeps the protocol for the sizes of all slices that were ever stored. -/
theorem follows_restart {S' : ℕ → Prop} {force : Bool} {found : List (SliceKey × SliceValue)}
    (hp : p.Follows S) (hstep : p.step (.restart cfg force found) = some p')
    (hS' : S' cfg.sliceSize)
    (hsizes : ∀ e ∈ p.pool.hist, ∀ key value writer, storedBy e = some (key, value, writer) →
      S' value.header.sliceSize)
    :
    p'.Follows S' := by
  obtain ⟨file, hfound, -, rfl⟩ := restart_cases hstep
  exact ⟨⟨hp.pool.inv.boot _ hfound hsizes, fun thread hthread => by cases hthread⟩, hS'⟩

/-- **Every run keeps all tasks to the protocol.** -/
theorem follows_run (hrun : (first cfg).run steps = some p) : p.Follows fun _ => True := by
  refine run_induct (C := fun _ _ => True) (I := Follows fun _ => True) ?_
    (follows_first trivial) (along_of_forall fun _ _ _ => trivial) hrun
  intro p st p' hp _ hstep
  by_cases hrestart : ∃ cfg force found, st = .restart cfg force found
  · obtain ⟨cfg, force, found, rfl⟩ := hrestart
    exact follows_restart hp hstep trivial fun _ _ _ _ _ _ => trivial
  · push Not at hrestart
    exact (follows_step hp hrestart hstep).1

/-! ### The slice size of a data directory -/

/-- All resident slices are of the running slice size, and the guard file records
it. -/
structure Sound (p : Process) : Prop where
  follows : p.Follows fun s => s = p.cfg.sliceSize
  file : Guard.StoredConfig.parse p.file = .ok p.cfg.stored

theorem stored_fits (cfg : Config) :
    cfg.stored.sliceSize < 2 ^ 64 ∧ cfg.stored.storeFormatVersion < 2 ^ 32 := by
  have hsize := cfg.sliceSize_valid.atMost
  have hversion : Guard.storeFormatVersion < 2 ^ 32 := by decide
  exact ⟨by simp only [Config.stored]; omega, hversion⟩

theorem sound_first (cfg : Config) : (first cfg).Sound := by
  obtain ⟨hsize, hversion⟩ := stored_fits cfg
  exact ⟨follows_first rfl, Guard.parse_render hsize hversion⟩

/-- The moves that force nothing on the guard. -/
def Step.unforced : Step → Bool
  | .restart _ force _ => !force
  | _ => true

/-- A forced start changes the slice size only where nothing was ever stored. -/
def KeepsSize (p : Process) : Step → Prop
  | .restart cfg force _ => force = true →
      cfg.sliceSize = p.cfg.sliceSize ∨ ∀ e ∈ p.pool.hist, storedBy e = none
  | _ => True

theorem along_keepsSize (h : steps.all Step.unforced = true) : Along KeepsSize p steps := by
  refine along_of_forall fun q st hst => ?_
  have hunforced := List.all_eq_true.mp h st hst
  cases st with
  | restart cfg force found =>
      intro hforce
      simp [Step.unforced, hforce] at hunforced
  | _ => trivial

theorem sound_step {st : Step} (hp : p.Sound) (hkeep : p.KeepsSize st)
    (hstep : p.step st = some p') : p'.Sound := by
  by_cases hrestart : ∃ cfg force found, st = .restart cfg force found
  · obtain ⟨cfg, force, found, rfl⟩ := hrestart
    obtain ⟨file, -, hcheck, hp'⟩ := restart_cases hstep
    obtain ⟨hfits, hversion⟩ := stored_fits cfg
    -- the guard refuses any other size unless the start is forced
    have hsize : cfg.sliceSize = p.cfg.sliceSize ∨ ∀ e ∈ p.pool.hist, storedBy e = none := by
      rcases Guard.eq_of_check hp.file hcheck with heq | hforce
      · exact .inl (congrArg Guard.StoredConfig.sliceSize heq).symm
      · exact hkeep hforce
    have hfollows : p'.Follows fun s => s = cfg.sliceSize := by
      refine follows_restart hp.follows hstep rfl fun e he key value writer hst => ?_
      rcases hsize with heq | hempty
      · exact (hp.follows.pool.inv.stored e he key value writer hst).1.trans heq.symm
      · rw [hempty e he] at hst
        cases hst
    subst hp'
    exact ⟨hfollows, Guard.parse_of_check hfits hversion hcheck⟩
  · push Not at hrestart
    obtain ⟨hfollows, hcfg, hfile⟩ := follows_step hp.follows hrestart hstep
    rw [← hcfg] at hfollows
    exact ⟨hfollows, by rw [hfile, hcfg]; exact hp.file⟩

/-- **Every run keeps all slices at the running size**, as long as no forced start
changes the size over stored slices. -/
theorem sound_run (hkeep : Along KeepsSize (first cfg) steps)
    (hrun : (first cfg).run steps = some p) :
    p.Sound :=
  run_induct (fun _ _ _ hp hkeep hstep => sound_step hp hkeep hstep) (sound_first cfg) hkeep hrun

end Process

/-! ## Small scenarios

The vocabulary for concrete runs: one object of one service, at a slice size of
4 KiB, and the answers of an origin that labels its versions. -/

namespace Scenario

open Process

def object : ObjectId := ⟨List.replicate 16 0, rfl⟩

def config : Config where
  sliceSize := 4096
  client := .default
  staleOnError := true
  objectId := fun _ => object
  storeText := fun _ => "store error"
  readahead := 4
  sliceSize_valid := ⟨by decide, ⟨12, rfl⟩, by decide⟩

def key : CacheKey := { key := "/depot/a", service := "steam" }

def url : String := "http://cdn.steamcontent.com/depot/a"

/-- A request for the object. -/
def request (range : String) : Step := .spawn (.plan key url [] (some range))

/-- A 206 with the given `ETag`, `Content-Range` and body. -/
def raw (etag contentRange : String) (body : List UInt8) : RawResponse where
  status := 206
  headers := [("etag", etag), ("content-range", contentRange)]
  declared := none
  chunks := [body]
  failure := none

def reply (etag contentRange : String) (body : List UInt8) : Choice :=
  .reply (.ok (raw etag contentRange body))

/-- Task `tid` performs its next steps, one for each choice. -/
def tasks (tid : ℕ) (choices : List Choice) : List Step := choices.map (Step.task tid)

/-- A plan for an unknown object, up to the arrival of the probe's answer. -/
def probing (answer : Choice) : List Choice :=
  [.go, .go, .go, .go, .resolved (.ok ()), answer]

/-- The rest of such a plan: read the generation and the clock, store the slice,
write the index, set the cell, and look for `n` slices. -/
def committing (n : ℕ) : List Choice :=
  [.go, .time 0, .go, .go, .go] ++ List.replicate n .go

/-- Task `tid` plans a request for an unknown object that the origin answers, and
looks for `n` slices. -/
def coldRequest (tid : ℕ) (range : String) (answer : Choice) (n : ℕ) : List Step :=
  request range :: tasks tid (probing answer ++ committing n)

/-- Task `tid` plans a request for a known object, and looks for `n` slices. -/
def warmRequest (tid : ℕ) (range : String) (n : ℕ) : List Step :=
  request range :: tasks tid ([.go, .go, .time 0] ++ List.replicate n .go)

/-- The metadata a probe at time 0 writes. -/
def info (etag : String) (totalLen generation : ℕ) : ObjectMeta where
  key := "/depot/a"
  totalLen := totalLen
  generation := generation
  etag := some etag
  lastModified := none
  contentType := none
  noRanges := false
  created := 0
  lastSeen := 0
  stale := false

/-- The plan of a ranged request. -/
def plan (etag : String) (totalLen generation start stop : ℕ) (status : CacheStatus) : Plan where
  service := "steam"
  status := 206
  wanted := { start := start, stop := stop }
  totalLen := totalLen
  cacheStatus := status
  info := info etag totalLen generation
  object := object
  isPartial := true

/-- Task `tid` fetches a slice for a plan. -/
def fetch (tid : ℕ) (chosen : Plan) (index : ℕ) (choices : List Choice) : List Step :=
  .spawn (.slice chosen url [] index) :: tasks tid choices

/-- A slice as it is stored under that metadata. -/
def stored (etag : String) (totalLen generation : ℕ) (payload : List UInt8) : SliceValue where
  header := headerFor (info etag totalLen generation) config.sliceSize
  payload := payload

/-- The world of a task that runs alone: time stands still, names resolve, and the
origin gives one answer. -/
def steady (answer : RawResponse) : Act → Shared → Choice
  | .now, _ => .time 0
  | .resolve _, _ => .resolved (.ok ())
  | .send _ _, _ => .reply (.ok answer)
  | _, _ => .go

/-- Evaluate a task that runs alone and test where it ends. -/
theorem exists_runs {α : Type} (choose : Act → Shared → Choice) (p : Task α) (s : Shared)
    (P : α → Shared → Prop) [∀ value s, Decidable (P value s)]
    (h : ((p.run exec choose s).map fun r => decide (P r.1 r.2)) = some true) :
    ∃ value s' trace, P value s' ∧ Prog.Runs exec p s trace value s' := by
  rw [Option.map_eq_some_iff] at h
  obtain ⟨⟨value, s'⟩, hrun, hP⟩ := h
  obtain ⟨trace, hruns⟩ := Prog.runs_of_run hrun
  exact ⟨value, s', trace, of_decide_eq_true hP, hruns⟩

/-- Evaluate a run and test where it ends. -/
theorem exists_run (start : Process) (steps : List Step) (P : Process → Prop) [DecidablePred P]
    (h : ((start.run steps).map fun p => decide (P p)) = some true) :
    ∃ p, start.run steps = some p ∧ P p := by
  rw [Option.map_eq_some_iff] at h
  obtain ⟨p, hrun, hp⟩ := h
  exact ⟨p, hrun, of_decide_eq_true hp⟩

end Scenario

end Cachic
