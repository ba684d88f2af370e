import Cachic.Properties.Versions

/-!
# One version in each filled object

An origin that ignores `Range` sends the whole object every time, so the cache streams it
once and cuts it into slices.  Between the probe that planned the object and the stream
that fills it, or between two streams, the origin may replace the object.

The ranged path compares the validators of every slice it fetches with those the plan was
made from.  The fill does not: `run_fill` drops the headers of its response, so that no run
of such an origin ever comes to the error that goes with a bump of the generation.  All is
left to the origin.  `fills_single_version` says what it has to do: serve one version to the
probes that read a generation and to the fills under it.  `fill_mixes_versions` is a run in
which a slice is evicted, the object replaced and filled again under the old metadata, and a
client gets one slice of each.
-/

namespace Cachic

open Range Tiling ActionLang

namespace Origin

variable {V : Type} (origin : Origin V)

/-- A 200 with version `v`, under its label and length: all of it, or as much as came
before the stream broke off. -/
def Streams (v : V) (raw : RawResponse) : Prop :=
  raw.status = 200 ∧ raw.headers.header "etag" = some (origin.tag v) ∧
    raw.head.contentLength = some (origin.content v).length ∧
    raw.chunks.flatten <+: origin.content v ∧
    (raw.failure = none → raw.chunks.flatten = origin.content v)

instance (v : V) (raw : RawResponse) : Decidable (origin.Streams v raw) :=
  inferInstanceAs (Decidable (_ ∧ _ ∧ _ ∧ _ ∧ (_ → _)))

/-- The origin ignores ranges: whatever it is asked for about the object, a success is
some version of all of it. -/
def Ignores (object : ObjectId) (h : Hist) : Prop :=
  ∀ x ∈ exchanges h, x.purpose.object = object → isSuccess x.raw.status = true →
    ∃ v, origin.Streams v x.raw

instance [Fintype V] (object : ObjectId) (h : Hist) : Decidable (origin.Ignores object h) :=
  inferInstanceAs (Decidable (∀ x ∈ exchanges h, _ → _ → Exists _))

end Origin

/-- The header the slices of a fill are stored under. -/
def Purpose.fillHeader : Purpose → Option SliceHeader
  | .fill _ header => some header
  | _ => none

/-- The origin served one version for each generation: to the probes that read it, and to
the fills under it. -/
def OneVersionServed (object : ObjectId) (h : Hist) : Prop :=
  OneVersionEach object h ∧
    ∀ x ∈ exchanges h, ∀ header ∈ x.purpose.fillHeader, x.purpose.object = object →
      isSuccess x.raw.status = true → ∀ c ∈ commits h, c.object = object →
      c.generation = header.generation → x.raw.head.validators.etag = c.validators.etag

instance (object : ObjectId) (h : Hist) : Decidable (OneVersionServed object h) :=
  inferInstanceAs (Decidable (_ ∧
    ∀ x ∈ exchanges h, ∀ header ∈ x.purpose.fillHeader, _ → _ → ∀ c ∈ commits h, _ → _ → _))

section

variable {V : Type} {origin : Origin V} {object : ObjectId} {h : Hist}

/-- Metadata in use describes a version, of an origin without ranges. -/
theorem Recorded.wholeVersion (hi : origin.Ignores object h) {info : ObjectMeta}
    (hr : Recorded h object info) :
    ∃ v, info.etag = some (origin.tag v) ∧ info.totalLen = (origin.content v).length ∧
      info.noRanges = true := by
  obtain ⟨c, -, ⟨-, -, url, ⟨client, headers, raw, hmem, hreceive⟩, hshape⟩, hobject, now, seen,
    rfl⟩ := hr
  obtain ⟨hstatus, hheaders, hsuccess, -⟩ := receive_ok hreceive
  obtain ⟨v, h200, htag, hlength, -⟩ := hi _ (mem_exchanges hmem) hobject hsuccess
  have hetag : c.probed.response.header "etag" = some (origin.tag v) := by
    rw [← htag, ← hheaders]
    rfl
  cases hranges : c.probed.noRanges with
  | false =>
      rw [hranges] at hshape
      have h206 := (shape_ranges hshape).1
      rw [hstatus, h200] at h206
      cases h206
  | true =>
      rw [hranges] at hshape
      have hlen := (shape_noRanges hshape).2
      rw [← contentLength_head hheaders, hlength] at hlen
      exact ⟨v, hetag, (Option.some.inj hlen).symm, hranges⟩

variable {key : SliceKey} {value : SliceValue} {writer : Writer}

/-- A slice of the object was stored by a fill, from a stream that was answered to it. -/
theorem Provenance.streamed (hi : origin.Ignores object h) (hobject : key.object = object)
    (hp : Provenance h key value writer) :
    ∃ raw piece, Streamed h object value.header raw ∧ key.index = piece % 2 ^ 32 ∧
      value.payload = tile raw.chunks.flatten value.header.sliceSize piece ∧
      ValidSliceSize value.header.sliceSize ∧
      piece * value.header.sliceSize < raw.chunks.flatten.length ∧
      ((piece + 1) * value.header.sliceSize ≤ raw.chunks.flatten.length ∨ raw.failure = none) := by
  cases hp with
  | @probe c now hc hjust hranges =>
      have hrecorded : Recorded h object (c.probed.info c.generation now) :=
        ⟨c, hc, hjust, hobject, now, now, rfl⟩
      obtain ⟨v, -, -, hnone⟩ := hrecorded.wholeVersion hi
      rw [show (c.probed.info c.generation now).noRanges = false from hranges] at hnone
      exact absurd hnone (by simp)
  | fetch hrec hranges =>
      subst hobject
      obtain ⟨v, -, -, hnone⟩ := hrec.wholeVersion hi
      rw [hranges] at hnone
      cases hnone
  | @fill o info sliceSize piece raw hrec hranges hvalid hstreamed hin hwhole =>
      subst hobject
      exact ⟨raw, piece, hstreamed, rfl, rfl, hvalid, hin, hwhole⟩

/-- The stream a slice was cut from is of the version its header names. -/
theorem OneVersionServed.streamed (ho : OneVersionServed object h) (hi : origin.Ignores object h)
    (hobject : key.object = object) (hp : Provenance h key value writer) {raw : RawResponse}
    (hs : Streamed h object value.header raw) :
    value.header.validators.matchesWith raw.head.validators = true ∧
      ∃ v, value.header.etag = some (origin.tag v) ∧ origin.Streams v raw := by
  obtain ⟨url, headers, hmem, hrefusal⟩ := hs
  have hsuccess := isSuccess_of_refusal hrefusal
  obtain ⟨v, hstreams⟩ := hi _ (mem_exchanges hmem) rfl hsuccess
  have htag : raw.head.validators.etag = some (origin.tag v) := hstreams.2.1
  -- the header is that of a probe of its generation
  obtain ⟨info, ⟨c, hc, -, hobj, now, seen, rfl⟩, -, hheader⟩ := hp.recorded
  have hgeneration : c.generation = value.header.generation := by rw [hheader]; rfl
  have hserved := ho.2 _ (mem_exchanges hmem) value.header rfl rfl hsuccess c hc
    (hobj.trans hobject) hgeneration
  have hnamed : value.header.etag = some (origin.tag v) := by
    rw [← htag, hserved, hheader]
    rfl
  exact ⟨matchesWith_of_tag hnamed htag (origin.tag_strong v), v, hnamed, hstreams⟩

/-- A slice cut from a stream of a version is a slice of the version. -/
theorem Origin.Streams.tile {v : V} {raw : RawResponse} (hs : origin.Streams v raw) {s piece : ℕ}
    (hwhole : (piece + 1) * s ≤ raw.chunks.flatten.length ∨ raw.failure = none) :
    Tiling.tile raw.chunks.flatten s piece = Tiling.tile (origin.content v) s piece := by
  obtain ⟨-, -, -, ⟨rest, hrest⟩, hall⟩ := hs
  rcases hwhole with hcut | hnone
  · rw [← hrest, tile_append_left hcut]
  · rw [hall hnone]

/-- **A stored slice holds the bytes of the version its header names.** -/
theorem OneVersionServed.provenance (ho : OneVersionServed object h)
    (hi : origin.Ignores object h) (hobject : key.object = object)
    (hcount : ∀ v, (origin.content v).length ≤ 2 ^ 32 * value.header.sliceSize)
    (hp : Provenance h key value writer) :
    ∃ v, value.header.etag = some (origin.tag v) ∧
      value.payload = Tiling.tile (origin.content v) value.header.sliceSize key.index := by
  obtain ⟨raw, piece, hstreamed, hindex, hpayload, hvalid, hin, hwhole⟩ := hp.streamed hi hobject
  obtain ⟨-, v, htag, hstreams⟩ := ho.streamed hi hobject hp hstreamed
  have hlen : raw.chunks.flatten.length ≤ (origin.content v).length := hstreams.2.2.2.1.length_le
  -- an object that its slice indices reach is not wrapped
  have hpiece : piece < 2 ^ 32 := by
    have hmul : piece * value.header.sliceSize < 2 ^ 32 * value.header.sliceSize :=
      lt_of_lt_of_le hin (hlen.trans (hcount v))
    exact Nat.lt_of_mul_lt_mul_right hmul
  refine ⟨v, htag, ?_⟩
  rw [hpayload, hstreams.tile hwhole, hindex, Nat.mod_eq_of_lt hpiece]

end

/-! ## Nothing is noticed -/

/-- The error that goes with a bump of the generation. -/
def OrchestratorError.notices : OrchestratorError → Bool
  | .validatorChanged _ _ _ => true
  | _ => false

/-- A slice of an object without ranges is not refused for its validators. -/
def Outcome.Unnoticed : Outcome → Prop
  | .sliced plan _ (.error e) => plan.info.noRanges = true → e.notices = false
  | _ => True

section Unnoticed

variable {cfg : Config} {plan : Plan} {url : String} {headers : HeaderMap} {index : ℕ}

theorem runFill_unnoticed {fill : FillId} : (runFill cfg plan url headers fill).Returns
    fun r => ∀ e, r = .error e → e.notices = false := by
  refine .bind _ fun answer => ?_
  cases answer with
  | error e =>
      rintro _ ⟨⟩
      rfl
  | ok stream =>
      refine .bind _ fun rest => ?_
      dsimp only
      split
      · rintro _ ⟨⟩
        rfl
      · split
        · rintro _ ⟨⟩
        · exact .bind _ fun _ => .bind _ fun _ => by rintro _ ⟨⟩

theorem ensureFilled_unnoticed : (ensureFilled cfg plan url headers index).Returns
    fun r => ∀ e, r = .error e → e.notices = false := by
  refine .bind _ fun seen => ?_
  cases seen with
  | true => rintro _ ⟨⟩
  | false =>
      refine .bind _ fun role => ?_
      cases role with
      | subscriber fill =>
          refine .bind _ fun answer => ?_
          cases answer with
          | ok _ => rintro _ ⟨⟩
          | error reason =>
              rintro _ ⟨⟩
              rfl
      | filler fill =>
          refine .bind_of_returns runFill_unnoticed fun result hresult => .bind _ fun _ => ?_
          cases result with
          | error e =>
              refine .bind _ fun _ => ?_
              rintro _ ⟨⟩
              exact hresult e rfl
          | ok count =>
              refine .bind _ fun _ => ?_
              split <;> rintro _ ⟨⟩
              rfl

theorem slice_unnoticed (hranges : plan.info.noRanges = true) :
    (slice cfg plan url headers index).Returns fun r => ∀ e, r = .error e → e.notices = false := by
  rw [slice, if_pos hranges]
  refine .bind_of_returns ensureFilled_unnoticed fun ready hready => ?_
  cases ready with
  | error e =>
      rintro _ ⟨⟩
      exact hready e rfl
  | ok _ =>
      refine .bind _ fun found => ?_
      rcases found with e | (_ | value) <;> rintro _ ⟨⟩ <;> rfl

theorem Job.unnoticed (job : Job) : (job.task cfg).Returns Outcome.Unnoticed := by
  cases job with
  | slice chosen url headers index =>
      by_cases hranges : chosen.info.noRanges = true
      · refine .bind_of_returns (slice_unnoticed hranges) fun result hresult => ?_
        cases result with
        | ok value => trivial
        | error e => exact fun _ => hresult e rfl
      · refine .bind _ fun result => ?_
        cases result with
        | ok value => trivial
        | error e => exact fun h => absurd h hranges
  | _ => exact .bind _ fun _ => trivial

/-- What is left of every task, wherever a run has come to. -/
theorem Process.unnoticed_run {p : Process} {steps : List Process.Step}
    (hrun : (Process.first cfg).run steps = some p) :
    ∀ t ∈ p.pool.threads, t.Returns Outcome.Unnoticed := by
  refine run_induct (C := fun _ _ => True)
    (I := fun p => ∀ t ∈ p.pool.threads, t.Returns Outcome.Unnoticed) ?_
    (fun t ht => by cases ht) (along_of_forall fun _ _ _ => trivial) hrun
  intro p st p' h _ hstep
  cases st with
  | spawn job =>
      simp only [step] at hstep
      split at hstep <;> cases hstep
      intro t ht
      rcases List.mem_append.mp ht with hold | hnew
      · exact h t hold
      · rw [List.mem_singleton.mp hnew]
        exact job.unnoticed
  | task tid choice =>
      simp only [step, Option.map_eq_some_iff] at hstep
      obtain ⟨pool, hsched, rfl⟩ := hstep
      obtain ⟨a, next, r, s', ht, -, rfl⟩ := Pool.sched_eq_some_iff.mp hsched
      intro t hmem
      rcases List.mem_or_eq_of_mem_set hmem with hold | rfl
      · exact h t hold
      · exact h _ (List.mem_of_getElem? ht) r
  | lose ids =>
      cases hstep
      exact h
  | restart cfg force found =>
      obtain ⟨file, -, -, rfl⟩ := restart_cases hstep
      intro t ht
      cases ht

end Unnoticed

/-- **One version for each generation, served, gives one version to each response.**  For an
origin that ignores ranges, and for every interleaving of requests, complete and broken
fills, evictions and restarts: if the origin serves one version to the probes and fills of a
generation, then every slice stored comes from a stream whose validators match, the slices
stored under one generation carry matching validators, and the slices returned for a plan
are all slices of the one version its validators name.  Whatever the origin serves, the
process notices nothing: no slice of the object is refused for its validators. -/
theorem fills_single_version {V : Type} {origin : Origin V} {object : ObjectId} {cfg : Config}
    {p : Process} {steps : List Process.Step}
    (hkeep : Process.Along Process.KeepsSize (Process.first cfg) steps)
    (hrun : (Process.first cfg).run steps = some p)
    (hignores : origin.Ignores object p.pool.hist)
    (hcount : ∀ v, (origin.content v).length ≤ 2 ^ 32 * p.cfg.sliceSize) :
    (∀ plan index e, Outcome.sliced plan index (.error e) ∈ p.pool.results →
      plan.object = object → Outcome.planned (.ok plan) ∈ p.pool.results →
      e.notices = false) ∧
    (OneVersionServed object p.pool.hist →
    (∀ e ∈ p.pool.hist, ∀ key value writer, storedBy e = some (key, value, writer) →
      key.object = object → ∃ raw piece, Streamed p.pool.hist object value.header raw ∧
        value.header.validators.matchesWith raw.head.validators = true ∧
        key.index = piece % 2 ^ 32 ∧
        value.payload = tile raw.chunks.flatten value.header.sliceSize piece) ∧
    (∀ e₁ ∈ p.pool.hist, ∀ e₂ ∈ p.pool.hist, ∀ key₁ value₁ writer₁ key₂ value₂ writer₂,
      storedBy e₁ = some (key₁, value₁, writer₁) → storedBy e₂ = some (key₂, value₂, writer₂) →
      key₁.object = object → key₂.object = object → key₁.generation = key₂.generation →
      value₁.header.validators.matchesWith value₂.header.validators = true) ∧
    ∀ plan, Outcome.planned (.ok plan) ∈ p.pool.results → plan.object = object →
      ∃ v, plan.info.etag = some (origin.tag v) ∧ plan.totalLen = (origin.content v).length ∧
        ∀ index value, Outcome.sliced plan index (.ok value) ∈ p.pool.results →
          value.payload = tile (origin.content v) p.cfg.sliceSize index) := by
  have hsound := Process.sound_run hkeep hrun
  refine ⟨fun plan index e hslice hobject hplanned => ?_, fun hserved => ⟨?_, ?_, ?_⟩⟩
  · have hplan : PlanOk p.pool.hist plan := hsound.follows.pool.result hplanned
    obtain ⟨v, -, -, hranges⟩ := (hobject ▸ hplan.recorded).wholeVersion hignores
    exact Process.unnoticed_run hrun _ (Pool.mem_results.mp hslice) hranges
  · intro e he key value writer hstored hobject
    have hprov := (hsound.follows.pool.inv.stored e he _ _ _ hstored).2
    obtain ⟨raw, piece, hstreamed, hindex, hpayload, -⟩ := hprov.streamed hignores hobject
    exact ⟨raw, piece, hstreamed, (hserved.streamed hignores hobject hprov hstreamed).1, hindex,
      hpayload⟩
  · intro e₁ he₁ e₂ he₂ key₁ value₁ writer₁ key₂ value₂ writer₂ hst₁ hst₂ hobj₁ hobj₂ hgen
    have hprov₁ := (hsound.follows.pool.inv.stored e₁ he₁ _ _ _ hst₁).2
    have hprov₂ := (hsound.follows.pool.inv.stored e₂ he₂ _ _ _ hst₂).2
    obtain ⟨raw, -, hstreamed, -⟩ := hprov₁.streamed hignores hobj₁
    obtain ⟨-, v, htag, -⟩ := hserved.streamed hignores hobj₁ hprov₁ hstreamed
    have hlabel := hserved.1.stored hprov₁ hprov₂ hobj₁ hobj₂ hgen
    exact matchesWith_of_tag htag (hlabel.symm.trans htag) (origin.tag_strong v)
  · intro plan hplanned hobject
    have hplan : PlanOk p.pool.hist plan := hsound.follows.pool.result hplanned
    obtain ⟨v, htag, htotal, -⟩ := (hobject ▸ hplan.recorded).wholeVersion hignores
    refine ⟨v, htag, hplan.totalLen.trans htotal, ?_⟩
    intro index value hslice
    obtain ⟨-, hsize, writer, hprov⟩ := hsound.follows.pool.result hslice
    have hsize : value.header.sliceSize = p.cfg.sliceSize := hsize
    obtain ⟨w, htag', hpayload⟩ := hserved.provenance hignores hobject
      (by rw [hsize]; exact hcount) hprov
    obtain ⟨info, hrec, hgen, hheader⟩ := hprov.recorded
    have hlabel : value.header.etag = plan.info.etag := by
      rw [hheader]
      exact hserved.1.recorded (hobject ▸ hrec) (hobject ▸ hplan.recorded) hgen
    obtain rfl := origin.tag_injective
      (Option.some.inj ((htag'.symm.trans hlabel).trans htag))
    rw [hpayload, hsize]
    rfl

namespace Scenario

open Process

/-- The bytes of an object of two slices. -/
def twoSlices (byte : UInt8) : List UInt8 := List.replicate 4097 byte

/-- Two versions of two slices each. -/
def wholeVersions : Origin (Fin 2) where
  content := ![twoSlices 1, twoSlices 2]
  tag := ![ "\"v1\"", "\"v2\""]
  tag_injective := by decide
  tag_strong := by decide

/-- The whole of a version, whatever was asked for. -/
def fullAnswer (v : Fin 2) : RawResponse where
  status := 200
  headers := [("etag", wholeVersions.tag v), ("content-length", "4097")]
  declared := some 4097
  chunks := [wholeVersions.content v]
  failure := none

theorem wholeVersions_length (v : Fin 2) : (wholeVersions.content v).length = 4097 := by
  fin_cases v
  · exact List.length_replicate
  · exact List.length_replicate

theorem fullAnswer_streams (v : Fin 2) : wholeVersions.Streams v (fullAnswer v) := by
  refine ⟨rfl, ?_, ?_, ⟨[], by simp [fullAnswer]⟩, fun _ => List.append_nil _⟩
  · fin_cases v <;> decide +kernel
  · rw [wholeVersions_length]
    fin_cases v <;> decide +kernel

/-- That answer, as the choice of a step. -/
def whole (v : Fin 2) : Choice := .reply (.ok (fullAnswer v))

/-- A plan for an object whose origin ignores ranges. -/
def wholePlan (etag : String) (status : CacheStatus) : Plan :=
  { plan etag 4097 0 0 4096 status with
    info := { info etag 4097 0 with noRanges := true } }

/-- Task `tid` plans a request for all of it, from an answer to its probe. -/
def wholeRequest (tid : ℕ) (answer : Choice) : List Step :=
  request "bytes=0-" :: tasks tid (probing answer ++ [.go, .time 0, .go, .go, .go, .go])

/-- The steps of a fill of two slices, up to reading the slice that was waited for. -/
def filling (seen : Choice) (stream : Choice) : List Choice :=
  [seen, .go, .resolved (.ok ()), stream] ++ List.replicate 7 .go

/-- What the tasks of a plan returned: index, first byte and length of each slice. -/
def slicesOf (chosen : Plan) (p : Process) : List (ℕ × Option UInt8 × ℕ) :=
  p.pool.results.filterMap fun
    | .sliced q index (.ok value) =>
        if q = chosen then some (index, value.payload.head?, value.payload.length) else none
    | _ => none

/-- Version 1 is planned and filled for its first slice. -/
def filledOnce : List Step :=
  wholeRequest 0 (whole 0) ++
    fetch 1 (wholePlan "\"v1\"" .miss) 0 (filling .go (whole 0))

/-- A run in which every answer is the whole of a version. -/
theorem ignores_of_run {p : Process} {steps : List Step} (hrun : (first config).run steps = some p)
    {versions : List (Fin 2)} (hanswers : steps.filterMap Step.answer = versions.map fullAnswer) :
    wholeVersions.Ignores object p.pool.hist := by
  intro x hx _ _
  rcases exchange_of_run hrun hx with hold | hchosen
  · cases hold
  · rw [hanswers, List.mem_map] at hchosen
    obtain ⟨v, -, hv⟩ := hchosen
    exact ⟨v, hv ▸ fullAnswer_streams v⟩

theorem fills_single_version_once :
    ∃ p, (first config).run filledOnce = some p ∧
      (wholeVersions.Ignores object p.pool.hist ∧ OneVersionServed object p.pool.hist ∧
        Outcome.planned (.ok (wholePlan "\"v1\"" .miss)) ∈ p.pool.results ∧
        slicesOf (wholePlan "\"v1\"" .miss) p = [(0, some 1, 4096)]) ∧
      ∃ v, some "\"v1\"" = some (wholeVersions.tag v) ∧
        ∀ index value,
          Outcome.sliced (wholePlan "\"v1\"" .miss) index (.ok value) ∈ p.pool.results →
            value.payload = tile (wholeVersions.content v) p.cfg.sliceSize index := by
  obtain ⟨p, hrun, hcfg, hserved, hplanned, hslices⟩ := exists_run (first config) filledOnce
    (fun p => p.cfg.sliceSize = 4096 ∧ OneVersionServed object p.pool.hist ∧
      Outcome.planned (.ok (wholePlan "\"v1\"" .miss)) ∈ p.pool.results ∧
      slicesOf (wholePlan "\"v1\"" .miss) p = [(0, some 1, 4096)]) (by decide +kernel)
  have hignores := @ignores_of_run p _ hrun [0, 0] rfl
  have hcount : ∀ v, (wholeVersions.content v).length ≤ 2 ^ 32 * p.cfg.sliceSize := by
    intro v
    rw [wholeVersions_length, hcfg]
    decide
  obtain ⟨v, htag, -, hall⟩ := ((fills_single_version (along_keepsSize (by decide)) hrun hignores
    hcount).2 hserved).2.2 _ hplanned rfl
  exact ⟨p, hrun, ⟨hignores, hserved, hplanned, hslices⟩, v, htag, hall⟩

/-- The second slice is evicted, the origin replaces the object, and the second slice is
filled again for the same plan. -/
def filledTwice : List Step :=
  filledOnce ++ fetch 2 (wholePlan "\"v1\"" .miss) 1 (filling .evicted (whole 1))

/-- One plan, of version 1, got its first slice from version 1 and its second from
version 2, and the index still has the entry of version 1. -/
theorem fill_mixes_versions :
    ∃ p, (first config).run filledTwice = some p ∧ wholeVersions.Ignores object p.pool.hist ∧
      Outcome.planned (.ok (wholePlan "\"v1\"" .miss)) ∈ p.pool.results ∧
      slicesOf (wholePlan "\"v1\"" .miss) p = [(0, some 1, 4096), (1, some 2, 1)] ∧
      p.pool.shared.index.get object = some (wholePlan "\"v1\"" .miss).info ∧
      OneVersionEach object p.pool.hist := by
  obtain ⟨p, hrun, hp⟩ := exists_run (first config) filledTwice
    (fun p => Outcome.planned (.ok (wholePlan "\"v1\"" .miss)) ∈ p.pool.results ∧
      slicesOf (wholePlan "\"v1\"" .miss) p = [(0, some 1, 4096), (1, some 2, 1)] ∧
      p.pool.shared.index.get object = some (wholePlan "\"v1\"" .miss).info ∧
      OneVersionEach object p.pool.hist) (by decide +kernel)
  exact ⟨p, hrun, @ignores_of_run p _ hrun [0, 0, 1] rfl, hp⟩

end Scenario

end Cachic
