import Cachic.Orchestrator.Actions
import Cachic.Services.Key

/-!
# The orchestrator's programs

`metadata`, `probe`, `plan`, `slice`, `ensure_filled`, `run_fill`, the index's
`touch` and `invalidate`, the upstream client's `fetch_range` and `fetch_stream`,
and the admin API's `purge`, each as a program over the atomic steps of
`Cachic.Orchestrator.Actions`.  They follow the source statement by statement; a
place where another task can run in between is an action.

What is left out are the errors of the index.  In the source a read that fails counts as no
entry, so that a request probes and the probe goes by generation 0; a write that fails is
ignored, and an invalidation that fails is logged.  A purge that cannot list the keys is answered
500.
-/

namespace Cachic

open Range ActionLang

/-- A task of the process. -/
abbrev Task (α : Type) := Prog Act Act.Res α

/-- Perform one atomic step. -/
abbrev ask (a : Act) : Task a.Res := Prog.perform a

/-- The slice sizes the configuration's validation accepts. -/
structure ValidSliceSize (s : ℕ) : Prop where
  atLeast : 4096 ≤ s
  powerOfTwo : Nat.isPowerOfTwo s
  atMost : s ≤ 2 ^ 32 - 1

/-- What a running orchestrator is configured with.  `objectId` is the hash of a
cache key, `storeText` the text of a store error, which the store library writes, and
`readahead` how many slices of a response are fetched at once. -/
structure Config where
  sliceSize : ℕ
  client : ClientConfig
  staleOnError : Bool
  objectId : CacheKey → ObjectId
  storeText : StoreError → String
  readahead : ℕ
  sliceSize_valid : ValidSliceSize sliceSize

theorem ValidSliceSize.pos {s : ℕ} (hs : ValidSliceSize s) : 0 < s :=
  lt_of_lt_of_le (by decide) hs.atLeast

theorem Config.sliceSize_pos (cfg : Config) : 0 < cfg.sliceSize := cfg.sliceSize_valid.pos

/-- Slice offsets never leave 64 bits. -/
theorem ValidSliceSize.offset_lt {s index : ℕ} (hs : ValidSliceSize s) (h : index < 2 ^ 32) :
    index * s + s < 2 ^ 64 := by
  have hsize := hs.atMost
  have hmul : index * s ≤ (2 ^ 32 - 1) * (2 ^ 32 - 1) := Nat.mul_le_mul (by omega) hsize
  omega

inductive OrchestratorError
  | unsatisfiable (totalLen : ℕ)
  | upstream (e : UpstreamError)
  | store (e : StoreError)
  | noLength (url : String)
  | shortSlice (url : String) (index expected actual : ℕ)
  | validatorChanged (url : String) (had now : Option String)
  | fill (url reason : String)
  deriving DecidableEq, Repr

/-- What the orchestrator decided about a request, before any body is produced. -/
structure Plan where
  service : String
  status : ℕ
  wanted : ByteRange
  totalLen : ℕ
  cacheStatus : CacheStatus
  info : ObjectMeta
  object : ObjectId
  isPartial : Bool
  deriving DecidableEq, Repr

/-- The validators an index entry records. -/
def ObjectMeta.validators (info : ObjectMeta) : Validators :=
  { etag := info.etag, lastModified := info.lastModified }

/-- The validators a slice header records. -/
def SliceHeader.validators (header : SliceHeader) : Validators :=
  { etag := header.etag, lastModified := header.lastModified }

/-- The validators of a response. -/
def UpstreamResponse.validators (response : UpstreamResponse) : Validators :=
  { etag := response.header "etag", lastModified := response.header "last-modified" }

/-! ## Error texts -/

/-- Debug formatting of a header value. -/
def debugText (value : String) : String :=
  let escaped := value.toList.flatMap fun c =>
    if c = '"' then ['\\', '"'] else if c = '\\' then ['\\', '\\']
    else if c = '\t' then ['\\', 't'] else [c]
  "\"" ++ String.ofList escaped ++ "\""

def debugOption : Option String → String
  | none => "None"
  | some value => "Some(" ++ debugText value ++ ")"

def UpstreamError.text : UpstreamError → String
  | .bodyTooLarge url limit => s!"{url} returned a body over the {limit} byte ceiling"
  | .resolve text => text
  | .request url source => s!"upstream request to {url} failed: " ++ source.text
  | .status url code => s!"upstream {url} answered {code}, which is not cacheable"
  | .redirect url location =>
      s!"upstream {url} redirected to " ++ debugText location ++
        "; cachic does not follow redirects"

def OrchestratorError.text (cfg : Config) : OrchestratorError → String
  | .unsatisfiable totalLen => s!"range is not satisfiable for a {totalLen}-byte object"
  | .upstream e => e.text
  | .store e => cfg.storeText e
  | .noLength url =>
      s!"upstream did not report a length for {url}, so the object cannot be sliced"
  | .shortSlice url index expected actual =>
      s!"slice {index} of {url}: expected {expected} bytes, upstream sent {actual}"
  | .validatorChanged url had now =>
      s!"validators for {url} changed mid-object (" ++ debugOption had ++ " -> " ++
        debugOption now ++ "); aborting so the client retries"
  | .fill url reason => s!"filling {url}: {reason}"

/-- Whether an upstream failure is the kind stale-on-error is for. -/
def isTransient : UpstreamError → Bool
  | .status _ code => isServerError code
  | .request _ source => source.isTimeout || source.isConnect || source.isRequest
  | _ => false

/-- A failure that crossed the store keeps only its text. -/
def isTransientOrchestratorError (cfg : Config) : OrchestratorError → Bool
  | .upstream e => isTransient e
  | .store e =>
      let text := (cfg.storeText e).toList
      CharText.occurs "timed out".toList text || CharText.occurs "503".toList text ||
        CharText.occurs "502".toList text
  | _ => false

/-! ## The index's two-transaction operations -/

/-- How stale a `last_seen` may get before it is worth another write, in
seconds. -/
def lastSeenGranularity : ℕ := 3600

/-- Record that an object was used, skipping the write if it was seen recently. -/
def touch (id : ObjectId) : Task Bool := do
  match ← ask (.indexGet id .touch) with
  | none => return false
  | some info =>
      let now ← ask .now
      if now - info.lastSeen < lastSeenGranularity then return false
      else
        let _ ← ask (.indexPut id { info with lastSeen := now } (.touch info))
        return true

/-- Mark an object stale and bump its generation; the new generation, or 1 for an
object the index does not know. -/
def invalidate (id : ObjectId) : Task ℕ := do
  match ← ask (.indexGet id .invalidate) with
  | none => return 1
  | some info =>
      let generation := wrapAdd 32 info.generation 1
      let _ ← ask (.indexPut id { info with generation := generation, stale := true }
        (.invalidate info))
      return generation

/-- Drop index entries not seen within `maxAge`; how many were removed. -/
def prune (maxAge : ℕ) : Task ℕ := do
  let now ← ask .now
  let ids ← ask (.indexScan (.seenBefore (now - maxAge)))
  if ids = [] then return 0
  else
    let _ ← ask (.indexRemove ids)
    return ids.length

/-! ## Upstream requests -/

/-- One request, repeated after a transport failure as often as configured. -/
def attempt (client : ClientConfig) (purpose : Purpose) (request : Request) (start stop : ℕ) :
    ℕ → Task (Except UpstreamError UpstreamResponse)
  | 0 => do
      match ← ask (.send purpose request) with
      | .ok response => return receive client request.url start stop response
      | .error source => return .error (.request request.url source)
  | retries + 1 => do
      match ← ask (.send purpose request) with
      | .ok response => return receive client request.url start stop response
      | .error source =>
          if source.isConnect || source.isTimeout then
            attempt client purpose request start stop retries
          else return .error (.request request.url source)

/-- Fetch a byte range from an origin. -/
def fetchRange (client : ClientConfig) (purpose : Purpose) (url : String)
    (headers : HeaderMap) (start stop : ℕ) : Task (Except UpstreamError UpstreamResponse) := do
  match ← ask (.resolve url) with
  | .error e => return .error e
  | .ok () =>
      attempt client purpose { url := url, range := some (start, stop), headers := headers }
        start stop client.retries

/-- Stream a whole object from an origin.  The stream is the list of its chunks and
how it ends. -/
def fetchStream (purpose : Purpose) (url : String) (headers : HeaderMap) :
    Task (Except UpstreamError (List (List UInt8) × Option TransportError)) := do
  match ← ask (.resolve url) with
  | .error e => return .error e
  | .ok () =>
      match ← ask (.send purpose { url := url, range := none, headers := headers }) with
      | .error source => return .error (.request url source)
      | .ok response =>
          match refusal url response with
          | some e => return .error e
          | none => return .ok (response.chunks, response.failure)

theorem attempt_asks (client : ClientConfig) (purpose : Purpose) (request : Request)
    (start stop retries : ℕ) :
    (attempt client purpose request start stop retries).All fun a => a.asks purpose = true := by
  induction retries with
  | zero =>
      refine .perform_bind (decide_eq_true rfl) fun answer => ?_
      cases answer <;> trivial
  | succ retries ih =>
      refine .perform_bind (decide_eq_true rfl) fun answer => ?_
      cases answer with
      | ok response => trivial
      | error source =>
          change (if source.isConnect || source.isTimeout then _ else _ : Task _).All _
          split
          · exact ih
          · trivial

theorem fetchRange_asks (client : ClientConfig) (purpose : Purpose) (url : String)
    (headers : HeaderMap) (start stop : ℕ) :
    (fetchRange client purpose url headers start stop).All fun a => a.asks purpose = true := by
  refine .perform_bind rfl fun answer => ?_
  cases answer with
  | error e => trivial
  | ok _ => exact attempt_asks client purpose _ start stop client.retries

theorem fetchStream_asks (purpose : Purpose) (url : String) (headers : HeaderMap) :
    (fetchStream purpose url headers).All fun a => a.asks purpose = true := by
  refine .perform_bind rfl fun answer => ?_
  cases answer with
  | error e => trivial
  | ok _ =>
      refine .perform_bind (decide_eq_true rfl) fun answer => ?_
      cases answer with
      | error source => trivial
      | ok response =>
          dsimp only
          split <;> trivial

/-- A request to an origin touches nothing that is shared. -/
theorem fetchRange_network (client : ClientConfig) (purpose : Purpose) (url : String)
    (headers : HeaderMap) (start stop : ℕ) :
    (fetchRange client purpose url headers start stop).All fun a => a.network = true :=
  (fetchRange_asks client purpose url headers start stop).imp fun _ => Act.network_of_asks

theorem fetchStream_network (purpose : Purpose) (url : String) (headers : HeaderMap) :
    (fetchStream purpose url headers).All fun a => a.network = true :=
  (fetchStream_asks purpose url headers).imp fun _ => Act.network_of_asks

/-! ## Learning about an object -/

/-- The length a probe's response reports, and whether the origin ignored the
range. -/
def shape (url : String) (response : UpstreamResponse) :
    Except OrchestratorError (ℕ × Bool) :=
  if response.status = 206 then
    match response.contentRangeTotal with
    | none => .error (.noLength url)
    | some total => .ok (total, false)
  else
    match response.contentLength with
    | none => .error (.noLength url)
    | some total => .ok (total, true)

/-- A length with ranges comes from the `Content-Range` of a 206. -/
theorem shape_ranges {url : String} {response : UpstreamResponse} {total : ℕ}
    (h : shape url response = .ok (total, false)) :
    response.status = 206 ∧ response.contentRangeTotal = some total := by
  unfold shape at h
  grind

/-- A length without ranges comes from the `Content-Length` of another success. -/
theorem shape_noRanges {url : String} {response : UpstreamResponse} {total : ℕ}
    (h : shape url response = .ok (total, true)) :
    response.status ≠ 206 ∧ response.contentLength = some total := by
  unfold shape at h
  grind

/-- Fetch one slice to learn the object's shape. -/
def probe (cfg : Config) (key : CacheKey) (object : ObjectId) (url : String)
    (headers : HeaderMap) (index : ℕ) : Task (Except OrchestratorError ObjectMeta) := do
  let start := index * cfg.sliceSize
  let stop := start + cfg.sliceSize - 1
  match ← fetchRange cfg.client (.probe object index) url headers start stop with
  | .error e => return .error (.upstream e)
  | .ok response =>
      match shape url response with
      | .error e => return .error e
      | .ok (totalLen, noRanges) =>
          let probed : Probed :=
            { key := key.key, sliceSize := cfg.sliceSize, index := index, response := response,
              totalLen := totalLen, noRanges := noRanges }
          -- the generation is read after the answer has arrived
          let previous ← ask (.indexGet object (.probe probed))
          let generation := generationOf previous
          let now ← ask .now
          let info := probed.info generation now
          if noRanges then
            let _ ← ask (.indexPut object info (.probe previous))
            return .ok info
          else
            let value : SliceValue :=
              { header := headerFor info cfg.sliceSize, payload := response.body }
            let _ ← ask (.storeInsert
              { object := object, generation := generation, index := index } value
              (.probe response))
            let _ ← ask (.indexPut object info (.probe previous))
            return .ok info

/-- Enter the object's metadata cell, probing if nobody has. -/
def coldMetadata (cfg : Config) (key : CacheKey) (object : ObjectId) (url : String)
    (headers : HeaderMap) (probeIndex : ℕ) :
    Task (Except OrchestratorError (ObjectMeta × Bool)) := do
  let cell ← ask (.cell object)
  let initialized ← ask (.cellInitialized cell)
  match ← ask (.cellEnter cell) with
  | .ready info => return .ok (info, !initialized)
  | .claimed =>
      match ← probe cfg key object url headers probeIndex with
      | .ok info =>
          let _ ← ask (.cellInit cell info)
          return .ok (info, !initialized)
      | .error e =>
          let _ ← ask (.cellAbandon cell)
          return .error e

/-- Learn an object's length and validators, and whether this call probed. -/
def metadata (cfg : Config) (key : CacheKey) (object : ObjectId) (url : String)
    (headers : HeaderMap) (probeIndex : ℕ) :
    Task (Except OrchestratorError (ObjectMeta × Bool)) := do
  match ← ask (.indexGet object .metadata) with
  | some info =>
      if !info.stale then
        let _ ← touch object
        return .ok (info, false)
      else coldMetadata cfg key object url headers probeIndex
  | none => coldMetadata cfg key object url headers probeIndex

/-! ## Planning -/

/-- How many of the slices are resident. -/
def countResident (object : ObjectId) (generation : ℕ) : List ℕ → Task ℕ
  | [] => return 0
  | index :: rest => do
      let resident ← ask (.storeContains
        { object := object, generation := generation, index := index })
      let others ← countResident object generation rest
      return if resident then others + 1 else others

/-- A `Range` header that does not parse is ignored. -/
def requestedSpec (rawRange : Option String) : Option RangeSpec :=
  match rawRange.map parseRange with
  | some (.ok spec) => some spec
  | _ => none

/-- The slice worth probing with: the one holding the range's first byte. -/
def probeIndexOf (cfg : Config) : Option RangeSpec → ℕ
  | some (.fromTo start _) => start / cfg.sliceSize % 2 ^ 32
  | some (.from start) => start / cfg.sliceSize % 2 ^ 32
  | some (.suffix _) => 0
  | none => 0

/-- The byte range a request resolves to. -/
def wantedRange (spec : Option RangeSpec) (totalLen : ℕ) :
    Except OrchestratorError ByteRange :=
  match spec with
  | none => .ok ((whole totalLen).getD { start := 0, stop := 0 })
  | some spec =>
      match resolve spec totalLen with
      | .ok r => .ok r
      | .error _ => .error (.unsatisfiable totalLen)

/-- Whether the request is a hit, by what the store holds now.  A slice this
request's own probe stored does not count. -/
def classifyPlan (cfg : Config) (object : ObjectId) (info : ObjectMeta) (wanted : ByteRange)
    (probedHere : Bool) (probeIndex : ℕ) : Task CacheStatus := do
  if info.totalLen = 0 then return .hit
  else
    let plan := Range.plan wanted cfg.sliceSize
    let resident ← countResident object info.generation plan.indices
    let resident := resident % 2 ^ 32
    -- the source subtracts with saturation
    let resident :=
      if probedHere && plan.first ≤ probeIndex && probeIndex ≤ plan.last then resident - 1
      else resident
    return CacheStatus.classify resident plan.count

theorem countResident_looks (object : ObjectId) (generation : ℕ) (indices : List ℕ) :
    (countResident object generation indices).All fun a => a.looks = true := by
  induction indices with
  | nil => trivial
  | cons index rest ih => exact .perform_bind rfl fun _ => .bind ih fun _ => trivial

/-- Whether a request is a hit is seen by looking. -/
theorem classifyPlan_looks (cfg : Config) (object : ObjectId) (info : ObjectMeta)
    (wanted : ByteRange) (probedHere : Bool) (probeIndex : ℕ) :
    (classifyPlan cfg object info wanted probedHere probeIndex).All fun a => a.looks = true := by
  unfold classifyPlan
  split
  · trivial
  · exact .bind (countResident_looks object info.generation _) fun _ => trivial

/-- Decide what to send, without producing any body. -/
def plan (cfg : Config) (key : CacheKey) (url : String) (headers : HeaderMap)
    (rawRange : Option String) : Task (Except OrchestratorError Plan) := do
  let object := cfg.objectId key
  let spec := requestedSpec rawRange
  let probeIndex := probeIndexOf cfg spec
  match ← metadata cfg key object url headers probeIndex with
  | .error e => return .error e
  | .ok (info, probedHere) =>
      match wantedRange spec info.totalLen with
      | .error e => return .error e
      | .ok wanted =>
          let cacheStatus ← classifyPlan cfg object info wanted probedHere probeIndex
          return .ok
            { service := key.service
              status := if spec.isSome then 206 else 200
              wanted := wanted
              totalLen := info.totalLen
              cacheStatus := cacheStatus
              info := info
              object := object
              isPartial := spec.isSome }

/-! ## Slices -/

/-- The key of one slice of a plan. -/
def Plan.sliceKey (plan : Plan) (index : ℕ) : SliceKey :=
  { object := plan.object, generation := plan.info.generation, index := index }

/-- Invalidate an object because its validators changed, and forget its metadata
cell. -/
def bumpGeneration (object : ObjectId) : Task ℕ := do
  let next ← invalidate object
  let _ ← ask (.cellDrop object)
  return next

/-- What the store runs on a miss: fetch the slice's extent, and refuse it when the
validators changed or the length is wrong. -/
def fetchSlice (cfg : Config) (plan : Plan) (url : String) (headers : HeaderMap) (index : ℕ) :
    Task (Except FetchFailure (SliceValue × UpstreamResponse)) := do
  let extent := sliceExtent index cfg.sliceSize plan.totalLen
  match ← fetchRange cfg.client (.slice (plan.sliceKey index)) url headers
      extent.start extent.stop with
  | .error e => return .error (.upstream e)
  | .ok response =>
      if !plan.info.validators.matchesWith response.validators then
        return .error (.changed plan.info.validators response.validators)
      else if response.body.length ≠ extent.len then
        return .error (.short index extent.len response.body.length)
      else
        return .ok ({ header := headerFor plan.info cfg.sliceSize, payload := response.body },
          response)

/-- Fetch a slice, coalescing concurrent misses for the same key.  The flag says
whether a failure is of the caller's own fetch. -/
def getOrFetch (key : SliceKey)
    (fetch : Task (Except FetchFailure (SliceValue × UpstreamResponse))) :
    Task (Except (StoreError × Bool) SliceValue) := do
  match ← ask (.storeEnter key) with
  | .hit value => return .ok value
  | .failed e => return .error (e, false)
  | .join flight =>
      match ← ask (.storeAwait flight) with
      | .ok value => return .ok value
      | .error e => return .error (e, false)
  | .lead flight =>
      let result ← fetch
      match ← ask (.storeFinish flight result) with
      | .ok value => return .ok value
      | .error e => return .error (e, true)

/-- After a failed fetch: a validator change seen by the caller's own fetch
invalidates the object. -/
def fetchFailed (plan : Plan) (url : String) : StoreError × Bool → Task OrchestratorError
  | (.fetch (.changed _ found), true) => do
      let _ ← bumpGeneration plan.object
      return .validatorChanged url plan.info.etag found.etag
  | (e, _) => return .store e

/-- A transient origin failure does not fail a slice the store can serve. -/
def staleOr (cfg : Config) (key : SliceKey) (e : OrchestratorError) :
    Task (Except OrchestratorError SliceValue) := do
  if cfg.staleOnError && isTransientOrchestratorError cfg e then
    match ← ask (.storeGet key) with
    | .ok (some value) => return .ok value
    | _ => return .error e
  else return .error e

/-! ### Filling an object whose origin ignores `Range` -/

/-- Cut `count` whole slices off the front of the buffer, storing and publishing
each; what is left, and the next index. -/
def cutSlices (plan : Plan) (fill : FillId) (sliceSize : ℕ) :
    ℕ → List UInt8 → ℕ → Task (List UInt8 × ℕ)
  | 0, buffer, index => return (buffer, index)
  | count + 1, buffer, index => do
      let value : SliceValue :=
        { header := headerFor plan.info sliceSize, payload := buffer.take sliceSize }
      let _ ← ask (.storeInsert (plan.sliceKey index) value .fill)
      let next := wrapAdd 32 index 1
      let _ ← ask (.fillPublish fill (.ready next))
      cutSlices plan fill sliceSize count (buffer.drop sliceSize) next

/-- The streaming loop: append each chunk to the buffer and cut off the whole
slices.  The source's inner loop runs while the buffer holds a slice, which is
`buffer.length / sliceSize` times. -/
def fillChunks (plan : Plan) (fill : FillId) (sliceSize : ℕ) :
    List (List UInt8) → List UInt8 → ℕ → Task (List UInt8 × ℕ)
  | [], buffer, index => return (buffer, index)
  | chunk :: rest, buffer, index => do
      let buffer := buffer ++ chunk
      let (buffer, index) ←
        cutSlices plan fill sliceSize (buffer.length / sliceSize) buffer index
      fillChunks plan fill sliceSize rest buffer index

/-- Stream a whole object, cutting it into slices as it arrives. -/
def runFill (cfg : Config) (plan : Plan) (url : String) (headers : HeaderMap) (fill : FillId) :
    Task (Except OrchestratorError ℕ) := do
  match ← fetchStream (.fill plan.object (headerFor plan.info cfg.sliceSize)) url headers with
  | .error e => return .error (.upstream e)
  | .ok (chunks, failure) =>
      let (buffer, index) ← fillChunks plan fill cfg.sliceSize chunks [] 0
      match failure with
      | some source => return .error (.upstream (.request url source))
      | none =>
          if buffer = [] then return .ok index
          else
            let value : SliceValue :=
              { header := headerFor plan.info cfg.sliceSize, payload := buffer }
            let _ ← ask (.storeInsert (plan.sliceKey index) value .fill)
            let next := wrapAdd 32 index 1
            let _ ← ask (.fillPublish fill (.ready next))
            return .ok next

/-- Ensure slice `index` of a range-ignoring object is readable, filling the object
if nobody else is. -/
def ensureFilled (cfg : Config) (plan : Plan) (url : String) (headers : HeaderMap) (index : ℕ) :
    Task (Except OrchestratorError Unit) := do
  if ← ask (.storeContains (plan.sliceKey index)) then return .ok ()
  else
    match ← ask (.fillClaim plan.object) with
    | .subscriber fill =>
        match ← ask (.fillWait fill index) with
        | .ok () => return .ok ()
        | .error reason => return .error (.fill url reason)
    | .filler fill =>
        let result ← runFill cfg plan url headers fill
        let _ ← ask (.fillRelease plan.object)
        match result with
        | .ok count =>
            let _ ← ask (.fillPublish fill (.complete count))
            if index < count then return .ok ()
            else return .error (.fill url
              s!"fill produced {count} slices; slice {index} was never reached")
        | .error e =>
            let _ ← ask (.fillPublish fill (.failed (e.text cfg)))
            return .error e

/-- Fetch one slice, coalescing with any concurrent request for it. -/
def slice (cfg : Config) (plan : Plan) (url : String) (headers : HeaderMap) (index : ℕ) :
    Task (Except OrchestratorError SliceValue) := do
  let key := plan.sliceKey index
  if plan.info.noRanges then
    match ← ensureFilled cfg plan url headers index with
    | .error e => return .error e
    | .ok () =>
        match ← ask (.storeGet key) with
        | .error e => return .error (.store e)
        | .ok (some value) => return .ok value
        | .ok none => return .error (.fill url
            s!"slice {index} was reported ready but is not in the store")
  else
    match ← getOrFetch key (fetchSlice cfg plan url headers index) with
    | .ok value => return .ok value
    | .error failure =>
        let e ← fetchFailed plan url failure
        staleOr cfg key e

/-! ### What fetching a slice does -/

theorem invalidate_bumps (id : ObjectId) :
    (invalidate id).All fun a => a.bumps = true := by
  refine .perform_bind rfl fun found => ?_
  cases found with
  | none => trivial
  | some info => exact .perform_bind rfl fun _ => trivial

theorem bumpGeneration_bumps (object : ObjectId) :
    (bumpGeneration object).All fun a => a.bumps = true :=
  .bind (invalidate_bumps object) fun _ => .perform_bind rfl fun _ => trivial

theorem Act.fetches_of_asks {key : SliceKey} {a : Act} (ha : a.asks (.slice key) = true) :
    a.fetches = true := by
  cases a with
  | resolve url => rfl
  | send p request =>
      obtain rfl : p = .slice key := of_decide_eq_true ha
      rfl
  | _ => cases ha

theorem Act.fills_of_asks {object : ObjectId} {header : SliceHeader} {a : Act}
    (ha : a.asks (.fill object header) = true) : a.fills = true := by
  cases a with
  | resolve url => rfl
  | send p request =>
      obtain rfl : p = .fill object header := of_decide_eq_true ha
      rfl
  | _ => cases ha

theorem fetchSlice_fetches (cfg : Config) (plan : Plan) (url : String) (headers : HeaderMap)
    (index : ℕ) : (fetchSlice cfg plan url headers index).All fun a => a.fetches = true := by
  refine .bind ((fetchRange_asks _ _ _ _ _ _).imp fun _ => Act.fetches_of_asks) fun answer => ?_
  cases answer with
  | error e => trivial
  | ok response =>
      dsimp only
      split
      · trivial
      · split <;> trivial

theorem getOrFetch_fetches (key : SliceKey)
    {fetch : Task (Except FetchFailure (SliceValue × UpstreamResponse))}
    (hfetch : fetch.All fun a => a.fetches = true) :
    (getOrFetch key fetch).All fun a => a.fetches = true := by
  refine .perform_bind rfl fun entry => ?_
  cases entry with
  | hit value => trivial
  | failed e => trivial
  | join flight =>
      refine .perform_bind rfl fun result => ?_
      cases result <;> trivial
  | lead flight =>
      refine .bind hfetch fun result => .perform_bind rfl fun answer => ?_
      cases answer <;> trivial

theorem fetchFailed_bumps (plan : Plan) (url : String) (failure : StoreError × Bool) :
    (fetchFailed plan url failure).All fun a => a.bumps = true := by
  unfold fetchFailed
  split
  · exact .bind (bumpGeneration_bumps _) fun _ => trivial
  · trivial

theorem staleOr_fetches (cfg : Config) (key : SliceKey) (e : OrchestratorError) :
    (staleOr cfg key e).All fun a => a.fetches = true := by
  unfold staleOr
  split
  · refine .perform_bind rfl fun found => ?_
    split <;> trivial
  · trivial

theorem cutSlices_cuts (plan : Plan) (fill : FillId) (sliceSize count : ℕ)
    (buffer : List UInt8) (index : ℕ) :
    (cutSlices plan fill sliceSize count buffer index).All fun a => a.cuts = true := by
  induction count generalizing buffer index with
  | zero => trivial
  | succ count ih => exact .perform_bind rfl fun _ => .perform_bind rfl fun _ => ih _ _

theorem fillChunks_cuts (plan : Plan) (fill : FillId) (sliceSize : ℕ)
    (chunks : List (List UInt8)) (buffer : List UInt8) (index : ℕ) :
    (fillChunks plan fill sliceSize chunks buffer index).All fun a => a.cuts = true := by
  induction chunks generalizing buffer index with
  | nil => trivial
  | cons chunk rest ih =>
      exact .bind (cutSlices_cuts plan fill sliceSize _ _ index) fun _ => ih _ _

theorem runFill_fills (cfg : Config) (plan : Plan) (url : String) (headers : HeaderMap)
    (fill : FillId) : (runFill cfg plan url headers fill).All fun a => a.fills = true := by
  refine .bind ((fetchStream_asks _ _ _).imp fun _ => Act.fills_of_asks) fun answer => ?_
  cases answer with
  | error e => trivial
  | ok stream =>
      refine .bind ((fillChunks_cuts plan fill cfg.sliceSize _ _ _).imp
        fun _ => Act.fills_of_cuts) fun left => ?_
      dsimp only
      split
      · trivial
      · split
        · trivial
        · exact .perform_bind rfl fun _ => .perform_bind rfl fun _ => trivial

theorem ensureFilled_fills (cfg : Config) (plan : Plan) (url : String) (headers : HeaderMap)
    (index : ℕ) : (ensureFilled cfg plan url headers index).All fun a => a.fills = true := by
  refine .perform_bind rfl fun resident => ?_
  split
  · trivial
  · refine .perform_bind rfl fun role => ?_
    cases role with
    | subscriber fill =>
        refine .perform_bind rfl fun answer => ?_
        cases answer <;> trivial
    | filler fill =>
        refine .bind (runFill_fills cfg plan url headers fill) fun result =>
          .perform_bind rfl fun _ => ?_
        cases result with
        | error e => exact .perform_bind rfl fun _ => trivial
        | ok count =>
            refine .perform_bind rfl fun _ => ?_
            split <;> trivial

/-- Fetching a slice, and bumping the generation when the origin has another version. -/
theorem slice_fetches (cfg : Config) (plan : Plan) (url : String) (headers : HeaderMap)
    (index : ℕ) : (slice cfg plan url headers index).All fun a =>
      a.fetches = true ∨ a.bumps = true := by
  unfold slice
  dsimp only
  split
  · refine .bind ((ensureFilled_fills cfg plan url headers index).imp fun _ ha =>
      .inl (Act.fetches_of_fills ha)) fun result => ?_
    cases result with
    | error e => trivial
    | ok _ =>
        refine .perform_bind (.inl rfl) fun found => ?_
        split <;> trivial
  · have hfetch := getOrFetch_fetches (plan.sliceKey index)
      (fetchSlice_fetches cfg plan url headers index)
    refine .bind (hfetch.imp fun _ => .inl) fun result => ?_
    cases result with
    | ok value => trivial
    | error failure =>
        exact .bind ((fetchFailed_bumps plan url failure).imp fun _ => .inr)
          fun e => (staleOr_fetches cfg _ e).imp fun _ => .inl

/-- The slice indices a plan needs, in order. -/
def indices (cfg : Config) (plan : Plan) : List ℕ :=
  if plan.totalLen = 0 then [] else (Range.plan plan.wanted cfg.sliceSize).indices

/-- The window of a slice's payload that satisfies the request. -/
def Plan.window (cfg : Config) (plan : Plan) (index : ℕ) : ℕ × ℕ :=
  Range.payloadWindow index cfg.sliceSize plan.wanted

/-- Extract the bytes of a slice that satisfy a window, or explain why it
cannot. -/
def SliceValue.payloadWindow (value : SliceValue) : ℕ × ℕ → Except String (List UInt8)
  | (start, stop) =>
      let length := value.payload.length
      if start > stop || stop > length then
        .error s!"slice is {length} bytes; wanted window {start}..{stop}"
      else .ok (Tiling.window value.payload start stop)

/-! ## Purging -/

/-- Remove the slices `0 .. count` of one generation. -/
def removeSlices (object : ObjectId) (generation : ℕ) : List ℕ → Task Unit
  | [] => return ()
  | index :: rest => do
      let _ ← ask (.storeRemove
        { object := object, generation := generation, index := index % 2 ^ 32 })
      removeSlices object generation rest

/-- The number of slices an object of a given length has. -/
def sliceCount (totalLen sliceSize : ℕ) : ℕ :=
  if totalLen = 0 then 0 else (totalLen + sliceSize - 1) / sliceSize

/-- Remove an object's slices, as its index entry describes them, and then the
entry; the number of slices. -/
def purgeObject (cfg : Config) (id : ObjectId) : Task ℕ := do
  match ← ask (.indexGet id .purge) with
  | some info =>
      let count := sliceCount info.totalLen cfg.sliceSize
      let _ ← removeSlices id info.generation (List.range count)
      let _ ← ask (.indexRemove [id])
      return count
  | none =>
      let _ ← ask (.indexRemove [id])
      return 0

def purgeIds (cfg : Config) : List ObjectId → Task ℕ
  | [] => return 0
  | id :: rest => do
      let removed ← purgeObject cfg id
      let others ← purgeIds cfg rest
      return removed + others

/-- Purge the objects whose normalised key starts with a given text: how many
objects and how many slices were removed. -/
def purge (cfg : Config) (start : String) : Task (ℕ × ℕ) := do
  let ids ← ask (.indexScan (.keyStarts start))
  let slicesRemoved ← purgeIds cfg ids
  return (ids.length, slicesRemoved)

/-! ### Purging and pruning only remove -/

theorem removeSlices_removes (object : ObjectId) (generation : ℕ) (indices : List ℕ) :
    (removeSlices object generation indices).All fun a => a.removes = true := by
  induction indices with
  | nil => trivial
  | cons index rest ih => exact .perform_bind rfl fun _ => ih

theorem purgeObject_removes (cfg : Config) (id : ObjectId) :
    (purgeObject cfg id).All fun a => a.removes = true := by
  refine .perform_bind rfl fun found => ?_
  cases found with
  | none => exact .perform_bind rfl fun _ => trivial
  | some info =>
      exact .bind (removeSlices_removes id info.generation _) fun _ =>
        .perform_bind rfl fun _ => trivial

theorem purgeIds_removes (cfg : Config) (ids : List ObjectId) :
    (purgeIds cfg ids).All fun a => a.removes = true := by
  induction ids with
  | nil => trivial
  | cons id rest ih =>
      exact .bind (purgeObject_removes cfg id) fun _ => .bind ih fun _ => trivial

theorem purge_removes (cfg : Config) (start : String) :
    (purge cfg start).All fun a => a.removes = true :=
  .perform_bind rfl fun ids => .bind (purgeIds_removes cfg ids) fun _ => trivial

theorem prune_removes (maxAge : ℕ) : (prune maxAge).All fun a => a.removes = true := by
  refine .perform_bind rfl fun now => .perform_bind rfl fun ids => ?_
  split
  · trivial
  · exact .perform_bind rfl fun _ => trivial

end Cachic
