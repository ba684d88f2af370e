import Cachic.Orchestrator.Programs

/-!
# A task that runs alone

Some properties are about one task while nothing else moves: what a request makes
of a known object, or how two requests that differ in a header compare.  The rest
of the world is then a strategy `choose`, and `Solo` says what it has to be like:
the clock shows a time, names resolve, and the origin answers every request in a
given way.  Everything else a step leaves open, evictions above all, stays open.
-/

namespace Cachic

open Range ActionLang

/-- The world of a task that runs alone against an origin with the given answers. -/
structure Solo (answers : Request → RawResponse → Prop) (choose : Act → Shared → Choice) :
    Prop where
  clock : ∀ s, ∃ t, choose .now s = .time t
  resolves : ∀ url s, choose (.resolve url) s = .resolved (.ok ())
  sends : ∀ purpose request s, ∃ raw,
    choose (.send purpose request) s = .reply (.ok raw) ∧ answers request raw

/-- An object's metadata is known: the index has it and it is current, or the index
has nothing current and the object's cell holds it. -/
def Knows (s : Shared) (object : ObjectId) (info : ObjectMeta) : Prop :=
  (s.index.get object = some info ∧ info.stale = false) ∨
    ((∀ entry ∈ s.index.get object, entry.stale = true) ∧
      ∃ cell, s.cellOf object = some cell ∧ s.cells cell = .ready info)

/-- What an answer to a ranged request says about ranges. -/
def ignoresRanges (url : String) :
    Except UpstreamError UpstreamResponse → Except OrchestratorError Bool
  | .error e => .error (.upstream e)
  | .ok response => (shape url response).map Prod.snd

/-- Ranges are ignored by an answer of that shape only. -/
theorem ignoresRanges_eq_true_iff {url : String}
    {received : Except UpstreamError UpstreamResponse} :
    ignoresRanges url received = .ok true ↔
      ∃ response total, received = .ok response ∧ shape url response = .ok (total, true) := by
  cases received with
  | error e => simp [ignoresRanges]
  | ok response =>
      cases hshape : shape url response with
      | error e => simp [ignoresRanges, hshape, Except.map]
      | ok learnt =>
          obtain ⟨total, noRanges⟩ := learnt
          simp [ignoresRanges, hshape, Except.map]

/-- What a probe of slice `index` learns from its answer. -/
def learn (cfg : Config) (key : CacheKey) (url : String) (index : ℕ) :
    Except UpstreamError UpstreamResponse → Except OrchestratorError Probed
  | .error e => .error (.upstream e)
  | .ok response =>
      match shape url response with
      | .error e => .error e
      | .ok (totalLen, noRanges) =>
          .ok { key := key.key, sliceSize := cfg.sliceSize, index := index, response := response,
                totalLen := totalLen, noRanges := noRanges }

/-- What a probe writes: the index entry, and the slice when ranges work. -/
def Shared.afterProbe (s : Shared) (object : ObjectId) (probed : Probed) (now : ℕ) : Shared :=
  let generation := generationOf (s.index.get object)
  let info := probed.info generation now
  let value : SliceValue :=
    { header := headerFor info probed.sliceSize, payload := probed.response.body }
  let s := if probed.noRanges then s else
    s.land { object := object, generation := generation, index := probed.index } value
  { s with index := s.index.put object info }

namespace Solo

variable {answers : Request → RawResponse → Prop} {choose : Act → Shared → Choice}

theorem mono {answers' : Request → RawResponse → Prop} (hsolo : Solo answers choose)
    (h : ∀ request raw, answers request raw → answers' request raw) : Solo answers' choose where
  clock := hsolo.clock
  resolves := hsolo.resolves
  sends purpose request s := by
    obtain ⟨raw, hreply, hraw⟩ := hsolo.sends purpose request s
    exact ⟨raw, hreply, h request raw hraw⟩

theorem exec_now (hsolo : Solo answers choose) (s : Shared) :
    ∃ t, exec .now (choose .now s) s = some (t, s) := by
  obtain ⟨t, ht⟩ := hsolo.clock s
  exact ⟨t, by rw [ht]; rfl⟩

theorem exec_resolve (hsolo : Solo answers choose) (url : String) (s : Shared) :
    exec (.resolve url) (choose (.resolve url) s) s = some (.ok (), s) := by
  rw [hsolo.resolves]
  rfl

theorem exec_send (hsolo : Solo answers choose) (purpose : Purpose) (request : Request)
    (s : Shared) : ∃ raw, answers request raw ∧
      exec (.send purpose request) (choose (.send purpose request) s) s =
        some (.ok raw, s) := by
  obtain ⟨raw, hraw, hanswer⟩ := hsolo.sends purpose request s
  exact ⟨raw, hanswer, by rw [hraw]; rfl⟩

theorem run_attempt (hsolo : Solo answers choose) (client : ClientConfig) (purpose : Purpose)
    (request : Request) (start stop retries : ℕ) (s : Shared) :
    ∃ raw, answers request raw ∧
      (attempt client purpose request start stop retries).run exec choose s =
        some (receive client request.url start stop raw, s) := by
  obtain ⟨raw, hanswer, hexec⟩ := hsolo.exec_send purpose request s
  refine ⟨raw, hanswer, ?_⟩
  cases retries with
  | zero => exact Prog.run_perform_bind_of_eq exec hexec _
  | succ retries => exact Prog.run_perform_bind_of_eq exec hexec _

/-- A ranged request is answered, and what is made of the answer is returned. -/
theorem run_fetchRange (hsolo : Solo answers choose) (client : ClientConfig)
    (purpose : Purpose) (url : String) (headers : HeaderMap) (start stop : ℕ) (s : Shared) :
    ∃ raw, answers { url := url, range := some (start, stop), headers := headers } raw ∧
      (fetchRange client purpose url headers start stop).run exec choose s =
        some (receive client url start stop raw, s) := by
  obtain ⟨raw, hanswer, hrun⟩ := hsolo.run_attempt client purpose
    { url := url, range := some (start, stop), headers := headers } start stop client.retries s
  refine ⟨raw, hanswer, ?_⟩
  rw [fetchRange, Prog.run_perform_bind_of_eq exec (hsolo.exec_resolve url s)]
  exact hrun

/-- So is a request for the whole object. -/
theorem run_fetchStream (hsolo : Solo answers choose) (purpose : Purpose) (url : String)
    (headers : HeaderMap) (s : Shared) :
    ∃ raw, answers { url := url, range := none, headers := headers } raw ∧
      (fetchStream purpose url headers).run exec choose s =
        some (match refusal url raw with
          | some e => .error e
          | none => .ok (raw.chunks, raw.failure), s) := by
  obtain ⟨raw, hanswer, hexec⟩ := hsolo.exec_send purpose
    { url := url, range := none, headers := headers } s
  refine ⟨raw, hanswer, ?_⟩
  rw [fetchStream, Prog.run_perform_bind_of_eq exec (hsolo.exec_resolve url s)]
  refine (Prog.run_perform_bind_of_eq exec hexec _).trans ?_
  cases hrefusal : refusal url raw <;> simp only [hrefusal, Prog.pure_eq_ret, Prog.run_ret]

/-- **A probe**: it learns from its answer, and writes what it learnt. -/
theorem run_probe_learn (hsolo : Solo answers choose) (cfg : Config) (key : CacheKey)
    (object : ObjectId) (url : String) (headers : HeaderMap) (index : ℕ) (s : Shared) :
    let start := index * cfg.sliceSize
    let stop := start + cfg.sliceSize - 1
    ∃ raw now, answers { url := url, range := some (start, stop), headers := headers } raw ∧
      (probe cfg key object url headers index).run exec choose s =
        some (match learn cfg key url index (receive cfg.client url start stop raw) with
          | .error e => (.error e, s)
          | .ok probed =>
              (.ok (probed.info (generationOf (s.index.get object)) now),
                s.afterProbe object probed now)) := by
  intro start stop
  obtain ⟨raw, hanswer, hfetch⟩ :=
    hsolo.run_fetchRange cfg.client (.probe object index) url headers start stop s
  obtain ⟨now, hnow⟩ := hsolo.exec_now s
  refine ⟨raw, now, hanswer, ?_⟩
  rw [probe, Prog.run_bind_of_eq exec hfetch]
  cases receive cfg.client url start stop raw with
  | error e => rfl
  | ok response =>
      cases hshape : shape url response with
      | error e =>
          simp only [learn, hshape]
          rfl
      | ok parts =>
          obtain ⟨totalLen, noRanges⟩ := parts
          simp only [learn, hshape]
          rw [Prog.run_perform_bind_of_eq exec (a := .indexGet object _) rfl,
            Prog.run_perform_bind_of_eq exec hnow]
          cases noRanges with
          | true => rfl
          | false => rfl

/-- What a probe learns about ranges: the answer's shape, if it gets that far. -/
theorem run_probe (hsolo : Solo answers choose) (cfg : Config) (key : CacheKey)
    (object : ObjectId) (url : String) (headers : HeaderMap) (index : ℕ) (s : Shared) :
    let start := index * cfg.sliceSize
    let stop := start + cfg.sliceSize - 1
    ∃ raw result s', answers { url := url, range := some (start, stop), headers := headers } raw ∧
      (probe cfg key object url headers index).run exec choose s = some (result, s') ∧
      result.map ObjectMeta.noRanges =
        ignoresRanges url (receive cfg.client url start stop raw) := by
  intro start stop
  obtain ⟨raw, now, hanswer, hrun⟩ :=
    hsolo.run_probe_learn cfg key object url headers index s
  refine ⟨raw, _, _, hanswer, hrun, ?_⟩
  cases receive cfg.client url start stop raw with
  | error e => rfl
  | ok response =>
      cases hshape : shape url response with
      | error e => simp only [learn, ignoresRanges, hshape, Except.map]
      | ok parts => simp only [learn, ignoresRanges, hshape, Except.map, Probed.info]

/-! ### Known metadata -/

/-- Touching an object may renew its time stamp, and does nothing else. -/
theorem run_touch (hsolo : Solo answers choose) {id : ObjectId} {info : ObjectMeta} {s : Shared}
    (hentry : s.index.get id = some info) :
    ∃ written index seen,
      (touch id).run exec choose s = some (written, { s with index := index }) ∧
      index.get id = some { info with lastSeen := seen } := by
  obtain ⟨now, hnow⟩ := hsolo.exec_now s
  rw [touch, Prog.run_perform_bind_of_eq exec (a := .indexGet id .touch) rfl, hentry]
  simp only
  rw [Prog.run_perform_bind_of_eq exec hnow]
  split
  · exact ⟨_, s.index, info.lastSeen, rfl, hentry⟩
  · exact ⟨_, _, now, rfl, ObjectIndex.get_put_self _ _ _⟩

/-- Known metadata is returned without a probe, and stays known; the index keeps the
object's generation. -/
theorem run_metadata (hsolo : Solo answers choose) {object : ObjectId} {info : ObjectMeta}
    {s : Shared} (hknows : Knows s object info) (cfg : Config) (key : CacheKey) (url : String)
    (headers : HeaderMap) (probeIndex : ℕ) :
    ∃ index seen, (metadata cfg key object url headers probeIndex).run exec choose s =
        some (.ok (info, false), { s with index := index }) ∧
      Knows { s with index := index } object { info with lastSeen := seen } ∧
      (index.get object).map ObjectMeta.generation =
        (s.index.get object).map ObjectMeta.generation := by
  rw [metadata, Prog.run_perform_bind_of_eq exec (a := .indexGet object .metadata) rfl]
  rcases hknows with ⟨hindex, hfresh⟩ | ⟨hstale, cell, hcell, hready⟩
  · obtain ⟨written, index, seen, htouch, hget⟩ := hsolo.run_touch hindex
    refine ⟨index, seen, ?_, .inl ⟨hget, hfresh⟩, by rw [hget, hindex]; rfl⟩
    rw [hindex]
    simp only [hfresh, Bool.not_false, if_true]
    exact Prog.run_bind_of_eq exec htouch _
  · have hcold : (coldMetadata cfg key object url headers probeIndex).run exec choose s =
        some (.ok (info, false), s) := by
      have hget : exec (.cell object) (choose (.cell object) s) s = some (cell, s) := by
        simp only [exec, hcell]
      have hinit : exec (.cellInitialized cell) (choose (.cellInitialized cell) s) s =
          some (true, s) := by simp only [exec, hready]
      have henter : exec (.cellEnter cell) (choose (.cellEnter cell) s) s =
          some (.ready info, s) := by simp only [exec, hready]
      rw [coldMetadata, Prog.run_perform_bind_of_eq exec hget,
        Prog.run_perform_bind_of_eq exec hinit, Prog.run_perform_bind_of_eq exec henter]
      rfl
    refine ⟨s.index, info.lastSeen, ?_, .inr ⟨hstale, cell, hcell, hready⟩, rfl⟩
    cases hentry : s.index.get object with
    | none => exact hcold
    | some entry =>
        simp only [hstale entry hentry, Bool.not_true, Bool.false_eq_true, if_false]
        exact hcold

end Solo

/-! ## Every run of a probe -/

section Probe

variable {cfg : Config} {key : CacheKey} {object : ObjectId} {url : String} {headers : HeaderMap}
  {index : ℕ} {s s' : Shared} {trace : List (Event Act Act.Res)}

/-- What is learnt is about the slice that was probed. -/
theorem index_of_learn {fetched : Except UpstreamError UpstreamResponse} {probed : Probed}
    (h : learn cfg key url index fetched = .ok probed) : probed.index = index := by
  unfold learn at h
  split at h
  · cases h
  · split at h
    · cases h
    · cases h
      rfl

/-- A request to an origin leaves everything as it is. -/
theorem fetchRange_state {client : ClientConfig} {purpose : Purpose} {start stop : ℕ}
    {result : Except UpstreamError UpstreamResponse}
    (hrun : Prog.Runs exec (fetchRange client purpose url headers start stop) s trace result s') :
    s' = s := by
  have hframe : Prog.Triple exec (fun t => t = s)
      (fetchRange client purpose url headers start stop) fun _ t => t = s :=
    .frame (fetchRange_network client purpose url headers start stop)
      fun a choice t r t' ha ht hexec => (exec_network ha hexec).trans ht
  exact hframe s trace result s' rfl hrun

/-- **A probe** asks its origin, and then writes what it learns from the answer, if it learns
anything. -/
theorem runs_probe {result : Except OrchestratorError ObjectMeta}
    (hrun : Prog.Runs exec (probe cfg key object url headers index) s trace result s') :
    ∃ fetched asked written, trace = asked ++ written ∧
      (∀ e ∈ written, e.1.network = false) ∧
      Prog.Runs exec (fetchRange cfg.client (.probe object index) url headers
        (index * cfg.sliceSize) (index * cfg.sliceSize + cfg.sliceSize - 1)) s asked fetched s ∧
      match learn cfg key url index fetched with
      | .error e => result = .error e ∧ s' = s
      | .ok probed => ∃ now, result = .ok (probed.info (generationOf (s.index.get object)) now) ∧
          s' = s.afterProbe object probed now := by
  obtain ⟨fetched, s₁, asked, written, rfl, hfetch, hrest⟩ := Prog.runs_bind_iff.mp hrun
  obtain rfl := fetchRange_state hfetch
  refine ⟨fetched, asked, written, rfl, ?_⟩
  cases fetched with
  | error e =>
      obtain ⟨rfl, rfl, rfl⟩ := Prog.runs_ret_iff.mp hrest
      exact ⟨by simp, hfetch, rfl, rfl⟩
  | ok response =>
      cases hshape : shape url response with
      | error e =>
          simp only [hshape] at hrest
          obtain ⟨rfl, rfl, rfl⟩ := Prog.runs_ret_iff.mp hrest
          exact ⟨by simp, hfetch, by simp [learn, hshape]⟩
      | ok parts =>
          obtain ⟨totalLen, noRanges⟩ := parts
          simp only [hshape] at hrest
          obtain ⟨_, previous, s₂, _, hget, rfl, hread⟩ := Prog.runs_perform_bind_iff.mp hrest
          cases hget
          obtain ⟨_, now, s₂, _, hnow, rfl, htimed⟩ := Prog.runs_perform_bind_iff.mp hread
          obtain rfl := exec_now_eq hnow
          cases noRanges with
          | true =>
              obtain ⟨_, _, s₃, _, hput, rfl, hend⟩ := Prog.runs_perform_bind_iff.mp htimed
              cases hput
              obtain ⟨rfl, rfl, rfl⟩ := Prog.runs_ret_iff.mp hend
              refine ⟨by simp [Act.network], hfetch, ?_⟩
              simp only [learn, hshape]
              exact ⟨now, rfl, rfl⟩
          | false =>
              obtain ⟨_, _, s₃, _, hinsert, rfl, hstored⟩ := Prog.runs_perform_bind_iff.mp htimed
              cases hinsert
              obtain ⟨_, _, s₄, _, hput, rfl, hend⟩ := Prog.runs_perform_bind_iff.mp hstored
              cases hput
              obtain ⟨rfl, rfl, rfl⟩ := Prog.runs_ret_iff.mp hend
              refine ⟨by simp [Act.network], hfetch, ?_⟩
              simp only [learn, hshape]
              exact ⟨now, rfl, rfl⟩

end Probe

/-! ## A missing slice -/

/-- What `fetchSlice` makes of an answer. -/
def acceptSlice (cfg : Config) (plan : Plan) (index : ℕ) :
    Except UpstreamError UpstreamResponse → Except FetchFailure (SliceValue × UpstreamResponse)
  | .error e => .error (.upstream e)
  | .ok response =>
      if !plan.info.validators.matchesWith response.validators then
        .error (.changed plan.info.validators response.validators)
      else if response.body.length ≠ (sliceExtent index cfg.sliceSize plan.totalLen).len then
        .error (.short index (sliceExtent index cfg.sliceSize plan.totalLen).len
          response.body.length)
      else .ok ({ header := headerFor plan.info cfg.sliceSize, payload := response.body }, response)

theorem acceptSlice_upstream_iff {cfg : Config} {plan : Plan} {index : ℕ}
    {received : Except UpstreamError UpstreamResponse} {e : UpstreamError} :
    acceptSlice cfg plan index received = .error (.upstream e) ↔ received = .error e := by
  unfold acceptSlice
  grind

theorem Solo.run_fetchSlice {answers : Request → RawResponse → Prop}
    {choose : Act → Shared → Choice} (hsolo : Solo answers choose) (cfg : Config) (plan : Plan)
    (url : String) (headers : HeaderMap) (index : ℕ) (s : Shared) :
    let extent := sliceExtent index cfg.sliceSize plan.totalLen
    ∃ raw,
      answers { url := url, range := some (extent.start, extent.stop), headers := headers } raw ∧
      (fetchSlice cfg plan url headers index).run exec choose s =
        some (acceptSlice cfg plan index
          (receive cfg.client url extent.start extent.stop raw), s) := by
  intro extent
  obtain ⟨raw, hanswer, hrun⟩ := hsolo.run_fetchRange cfg.client (.slice (plan.sliceKey index)) url
    headers extent.start extent.stop s
  refine ⟨raw, hanswer, (Prog.run_bind_of_eq exec hrun _).trans ?_⟩
  cases receive cfg.client url extent.start extent.stop raw with
  | error e => rfl
  | ok response =>
      simp only [acceptSlice]
      split
      · rfl
      · split <;> rfl

/-- What `slice` reports when its own fetch of a missing slice failed. -/
def fetchError (plan : Plan) (url : String) : FetchFailure → OrchestratorError
  | .changed _ found => .validatorChanged url plan.info.etag found.etag
  | cause => .store (.fetch cause)

/-- What `slice` returns after its own fetch of a missing slice. -/
def fetchOutcome (plan : Plan) (url : String) :
    Except FetchFailure (SliceValue × UpstreamResponse) → Except OrchestratorError SliceValue
  | .ok (value, _) => .ok value
  | .error cause => .error (fetchError plan url cause)

theorem fetchOutcome_upstream_iff {plan : Plan} {url : String}
    {result : Except FetchFailure (SliceValue × UpstreamResponse)} {e : UpstreamError} :
    fetchOutcome plan url result = .error (.store (.fetch (.upstream e))) ↔
      result = .error (.upstream e) := by
  unfold fetchOutcome fetchError
  grind

section Missing

variable {choose : Act → Shared → Choice} {cfg : Config} {plan : Plan} {url : String}
  {headers : HeaderMap} {index : ℕ} {s s₁ : Shared} {flight : FlightId}

/-- A flight that somebody leads is running. -/
theorem running_of_lead {key : SliceKey} {choice : Choice}
    (henter : exec (.storeEnter key) choice s = some (.lead flight, s₁)) :
    s₁.flights flight = .running := by
  rcases exec_storeEnter_cases henter with ⟨text, -, hr, -⟩ | ⟨value, -, hr, -⟩ |
    ⟨other, -, -, hr, -⟩ | ⟨-, -, hr, rfl⟩
  · cases hr
  · cases hr
  · cases hr
  · cases hr
    exact Function.update_self _ _ _

/-- The store when a fetch that nobody overtook has ended. -/
def Shared.finished (s : Shared) (flight : FlightId) :
    Except FetchFailure (SliceValue × UpstreamResponse) → Shared
  | .ok (value, _) =>
      (s.setSlice flight.key (some value)).resolve flight.key flight (.ok value)
  | .error cause => s.resolve flight.key flight (.error (.fetch cause))

/-- The caller that leads the fetch of a slice, alone, returns what the fetch returned. -/
theorem run_getOrFetch_lead {key : SliceKey}
    {fetch : Task (Except FetchFailure (SliceValue × UpstreamResponse))}
    {result : Except FetchFailure (SliceValue × UpstreamResponse)}
    (henter : exec (.storeEnter key) (choose (.storeEnter key) s) s = some (.lead flight, s₁))
    (hfetch : fetch.run exec choose s₁ = some (result, s₁)) :
    (getOrFetch key fetch).run exec choose s =
      some (match result with
        | .ok (value, _) => .ok value
        | .error cause => .error (.fetch cause, true), s₁.finished flight result) := by
  have hrunning := running_of_lead henter
  rw [getOrFetch, Prog.run_perform_bind_of_eq exec henter]
  refine (Prog.run_bind_of_eq exec hfetch _).trans ?_
  cases result with
  | ok found =>
      have hexec : exec (.storeFinish flight (.ok found))
          (choose (.storeFinish flight (.ok found)) s₁) s₁ =
          some (.ok found.1, s₁.finished flight (.ok found)) := by
        simp only [exec, hrunning, Shared.finished]
      exact Prog.run_perform_bind_of_eq exec hexec _
  | error cause =>
      have hexec : exec (.storeFinish flight (.error cause))
          (choose (.storeFinish flight (.error cause)) s₁) s₁ =
          some (.error (.fetch cause), s₁.finished flight (.error cause)) := by
        simp only [exec, hrunning, Shared.finished]
      exact Prog.run_perform_bind_of_eq exec hexec _

/-- A store without the slice cannot replace an error. -/
theorem run_staleOr_missing (cfg : Config) {key : SliceKey} (hmissing : s.store key = none)
    (e : OrchestratorError) :
    ∃ choice, (staleOr cfg key e).run exec choose s = some (.error e, s.settle key choice) := by
  rw [staleOr]
  split
  · have hget : ∃ r s', exec (.storeGet key) (choose (.storeGet key) s) s = some (r, s') := by
      cases choose (.storeGet key) s <;> exact ⟨_, _, rfl⟩
    obtain ⟨r, s', hexec⟩ := hget
    have hnone : (s.settle key (choose (.storeGet key) s)).store key = none := by
      cases choose (.storeGet key) s <;> simp [Shared.settle, Shared.setSlice, hmissing]
    rcases exec_storeGet_cases hexec with ⟨text, rfl, rfl⟩ | ⟨rfl, rfl⟩
    · exact ⟨.go, Prog.run_perform_bind_of_eq exec hexec _⟩
    · refine ⟨choose (.storeGet key) s, (Prog.run_perform_bind_of_eq exec hexec _).trans ?_⟩
      rw [hnone]
      rfl
  · exact ⟨.go, rfl⟩

/-- The state after a bump: the object's entry, if there is one, is stale and one
generation on, and its cell is forgotten. -/
def Shared.bumped (s : Shared) (object : ObjectId) : Shared :=
  { s with
    index := match s.index.get object with
      | none => s.index
      | some info => s.index.put object
          { info with generation := wrapAdd 32 info.generation 1, stale := true }
    cellOf := Function.update s.cellOf object none }

theorem run_bumpGeneration (choose : Act → Shared → Choice) (object : ObjectId) (s : Shared) :
    ∃ generation, (bumpGeneration object).run exec choose s =
      some (generation, s.bumped object) := by
  rw [bumpGeneration, invalidate, Shared.bumped]
  cases hentry : s.index.get object with
  | none =>
      refine ⟨1, ?_⟩
      rw [Prog.bind_assoc, Prog.run_perform_bind_of_eq exec (a := .indexGet object .invalidate) rfl,
        hentry]
      rfl
  | some info =>
      refine ⟨wrapAdd 32 info.generation 1, ?_⟩
      rw [Prog.bind_assoc, Prog.run_perform_bind_of_eq exec (a := .indexGet object .invalidate) rfl,
        hentry]
      rfl

/-- The state after a caller's own fetch failed: a change of validators bumps the
generation. -/
def Shared.afterFailure (s : Shared) (object : ObjectId) : FetchFailure → Shared
  | .changed _ _ => s.bumped object
  | _ => s

theorem run_fetchFailed (choose : Act → Shared → Choice) (plan : Plan) (url : String)
    (cause : FetchFailure) (s : Shared) :
    (fetchFailed plan url (.fetch cause, true)).run exec choose s =
      some (fetchError plan url cause, s.afterFailure plan.object cause) := by
  cases cause with
  | upstream e => rfl
  | short index expected actual => rfl
  | changed expected found =>
      obtain ⟨generation, hbump⟩ := run_bumpGeneration choose plan.object s
      exact Prog.run_bind_of_eq exec hbump _

theorem Shared.store_afterFailure (s : Shared) (object : ObjectId) (cause : FetchFailure) :
    (s.afterFailure object cause).store = s.store := by cases cause <;> rfl

/-- A missing slice whose fetch fails: the caller returns the error. -/
theorem run_slice_failed {cause : FetchFailure} (hranges : plan.info.noRanges = false)
    (henter : exec (.storeEnter (plan.sliceKey index))
      (choose (.storeEnter (plan.sliceKey index)) s) s = some (.lead flight, s₁))
    (hfetch : (fetchSlice cfg plan url headers index).run exec choose s₁ =
      some (.error cause, s₁))
    (hmissing : s₁.store (plan.sliceKey index) = none) :
    ∃ choice, (slice cfg plan url headers index).run exec choose s =
      some (.error (fetchError plan url cause),
        ((s₁.finished flight (.error cause)).afterFailure plan.object cause).settle
          (plan.sliceKey index) choice) := by
  have hrun := run_getOrFetch_lead henter hfetch
  rw [slice, hranges]
  simp only [Bool.false_eq_true, if_false]
  -- a failed fetch stores nothing, so there is no stale slice to fall back on
  have hmissing₃ : (s₁.finished flight (.error cause)).store (plan.sliceKey index) = none :=
    hmissing
  rw [← Shared.store_afterFailure _ plan.object cause] at hmissing₃
  obtain ⟨choice, hstale⟩ := run_staleOr_missing cfg hmissing₃ (fetchError plan url cause)
  refine ⟨choice, (Prog.run_bind_of_eq exec hrun _).trans ?_⟩
  exact (Prog.run_bind_of_eq exec (run_fetchFailed choose plan url cause _) _).trans hstale

/-- **A missing slice**: the caller that has to fetch it returns what its fetch came
to. -/
theorem run_slice_lead {result : Except FetchFailure (SliceValue × UpstreamResponse)}
    (hranges : plan.info.noRanges = false)
    (henter : exec (.storeEnter (plan.sliceKey index))
      (choose (.storeEnter (plan.sliceKey index)) s) s = some (.lead flight, s₁))
    (hfetch : (fetchSlice cfg plan url headers index).run exec choose s₁ = some (result, s₁))
    (hmissing : s₁.store (plan.sliceKey index) = none) :
    ∃ s', (slice cfg plan url headers index).run exec choose s =
      some (fetchOutcome plan url result, s') := by
  cases result with
  | ok found =>
      have hrun := run_getOrFetch_lead henter hfetch
      rw [slice, hranges]
      exact ⟨_, Prog.run_bind_of_eq exec hrun _⟩
  | error cause =>
      obtain ⟨choice, hrun⟩ := run_slice_failed hranges henter hfetch hmissing
      exact ⟨_, hrun⟩

end Missing

end Cachic
