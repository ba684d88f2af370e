import Cachic.Properties.HeaderAgreement

/-!
# One version in each response

An origin replaces an object now and then, and labels each version with a strong
`ETag` of its own.  A response must not mix versions: its slices have to be the
bytes of the version its plan was made from.

Slices are kept apart by the generation in their key, so all depends on one
generation holding one version.  A probe learns its version when the origin
answers and its generation when it later reads the index, and nothing ties the two
together.  `responses_single_version` says that one version for each generation is
enough, for every interleaving.  `response_of_other_version` is a run in which two
probes that were answered with different versions go on to read the same
generation, and a client gets the bytes of one under the `ETag` of the other.
-/

namespace Cachic

open Range Tiling ActionLang

/-- The versions of one object, each with its content and its label. -/
structure Origin (V : Type) where
  content : V → List UInt8
  tag : V → String
  tag_injective : Function.Injective tag
  tag_strong : ∀ v, isWeak (tag v) = false

namespace Origin

variable {V : Type} (origin : Origin V)

/-- A 206 with the asked bytes of version `v`, under its label, unless it breaks off. -/
def Serves (v : V) (start stop : ℕ) (raw : RawResponse) : Prop :=
  raw.status = 206 ∧ raw.headers.header "etag" = some (origin.tag v) ∧
    raw.head.contentRangeTotal = some (origin.content v).length ∧
    (raw.failure = none → raw.chunks.flatten = window (origin.content v) start (stop + 1))

instance (v : V) (start stop : ℕ) (raw : RawResponse) :
    Decidable (origin.Serves v start stop raw) :=
  inferInstanceAs (Decidable (_ ∧ _ ∧ _ ∧ _))

/-- The origin honours ranges: whenever it answers a ranged request for the object
with a success, it serves some version, whichever it has at the time. -/
def Honours (object : ObjectId) (h : Hist) : Prop :=
  ∀ x ∈ exchanges h, x.purpose.object = object → isSuccess x.raw.status = true →
    ∀ r ∈ x.request.range, ∃ v, origin.Serves v r.1 r.2 x.raw

instance [Fintype V] (object : ObjectId) (h : Hist) : Decidable (origin.Honours object h) :=
  inferInstanceAs (Decidable (∀ x ∈ exchanges h, _ → _ → ∀ r ∈ _, Exists _))

end Origin

/-- Any two probes of the object that read the same generation were answered with
the same version. -/
def OneVersionEach (object : ObjectId) (h : Hist) : Prop :=
  ∀ c₁ ∈ commits h, ∀ c₂ ∈ commits h, c₁.object = object → c₂.object = object →
    c₁.generation = c₂.generation → c₁.validators.etag = c₂.validators.etag

instance (object : ObjectId) (h : Hist) : Decidable (OneVersionEach object h) :=
  inferInstanceAs (Decidable (∀ c₁ ∈ commits h, ∀ c₂ ∈ commits h, _ → _ → _ → _))

section

variable {V : Type} {origin : Origin V} {object : ObjectId} {h : Hist}

/-- What was answered to a ranged request is a version's. -/
theorem Origin.Honours.answered (hh : origin.Honours object h) {purpose : Purpose}
    {url : String} {start stop : ℕ} {response : UpstreamResponse}
    (ha : Answered h purpose url start stop response) (hobject : purpose.object = object) :
    ∃ v, response.status = 206 ∧ response.validators.etag = some (origin.tag v) ∧
      response.contentRangeTotal = some (origin.content v).length ∧
      response.body = window (origin.content v) start (stop + 1) := by
  obtain ⟨client, headers, raw, hmem, hrecv⟩ := ha
  obtain ⟨hstatus, hheaders, hsuccess, hbody⟩ := receive_ok hrecv
  obtain ⟨v, h206, htag, htotal, hbytes⟩ :=
    hh _ (mem_exchanges hmem) hobject hsuccess (start, stop) rfl
  refine ⟨v, hstatus.trans h206, ?_, ?_, ?_⟩
  · rw [← htag, ← hheaders]
    rfl
  · rw [← contentRangeTotal_head hheaders, htotal]
  · rw [hbody, if_pos h206, hbytes (failure_of_receive_ok hrecv h206)]

/-- Metadata in use describes a version. -/
theorem Recorded.version (hh : origin.Honours object h) {info : ObjectMeta}
    (hr : Recorded h object info) :
    ∃ v, info.etag = some (origin.tag v) ∧ info.totalLen = (origin.content v).length ∧
      info.noRanges = false := by
  obtain ⟨c, -, ⟨-, -, url, hanswered, hshape⟩, hobject, now, seen, rfl⟩ := hr
  obtain ⟨v, h206, htag, htotal, -⟩ := hh.answered hanswered hobject
  cases hranges : c.probed.noRanges with
  | true =>
      rw [hranges] at hshape
      exact absurd h206 (shape_noRanges hshape).1
  | false =>
      rw [hranges] at hshape
      have hlen := (shape_ranges hshape).2.symm.trans htotal
      exact ⟨v, htag, Option.some.inj hlen, hranges⟩

/-- A stored slice holds the bytes of the version its header names. -/
theorem Provenance.version (hh : origin.Honours object h) {key : SliceKey} {value : SliceValue}
    {writer : Writer} (hobject : key.object = object) (hp : Provenance h key value writer) :
    ∃ v, value.header.etag = some (origin.tag v) ∧
      value.payload = tile (origin.content v) value.header.sliceSize key.index := by
  cases hp with
  | @probe c now hc hjust hranges =>
      obtain ⟨hvalid, -, url, hanswered, -⟩ := hjust
      obtain ⟨v, -, htag, -, hbody⟩ := hh.answered hanswered hobject
      exact ⟨v, htag, hbody.trans (window_slice _ hvalid.pos _)⟩
  | @fetch object' info sliceSize index url response hrec hranges hvalid hindex hin ha hmatch
      hlen =>
      subst hobject
      obtain ⟨v, htag, htotal, -⟩ := hrec.version hh
      obtain ⟨w, -, htag', -, hbody⟩ := hh.answered ha rfl
      -- the validator check makes the answer's version the plan's
      have hsame : some (origin.tag v) = some (origin.tag w) := by
        rw [← htag, ← htag']
        exact (Validators.etag_eq_of_matches hmatch).1
      obtain rfl := origin.tag_injective (Option.some.inj hsame)
      rw [htotal] at hbody hin
      exact ⟨v, htag, hbody.trans (window_sliceExtent hvalid.pos (hvalid.offset_lt hindex) hin)⟩
  | fill hrec hranges =>
      subst hobject
      obtain ⟨v, -, -, hnone⟩ := hrec.version hh
      rw [hranges] at hnone
      cases hnone

/-- Two metadata recorded for one generation carry the same label. -/
theorem OneVersionEach.recorded (ho : OneVersionEach object h) {info₁ info₂ : ObjectMeta}
    (h₁ : Recorded h object info₁) (h₂ : Recorded h object info₂)
    (hgen : info₁.generation = info₂.generation) : info₁.etag = info₂.etag := by
  obtain ⟨c₁, hc₁, -, hobj₁, now₁, seen₁, rfl⟩ := h₁
  obtain ⟨c₂, hc₂, -, hobj₂, now₂, seen₂, rfl⟩ := h₂
  exact ho c₁ hc₁ c₂ hc₂ hobj₁ hobj₂ hgen

/-- Two slices stored under one generation carry the same label. -/
theorem OneVersionEach.stored (ho : OneVersionEach object h) {key₁ key₂ : SliceKey}
    {value₁ value₂ : SliceValue} {writer₁ writer₂ : Writer}
    (h₁ : Provenance h key₁ value₁ writer₁) (h₂ : Provenance h key₂ value₂ writer₂)
    (hobj₁ : key₁.object = object) (hobj₂ : key₂.object = object)
    (hgen : key₁.generation = key₂.generation) : value₁.header.etag = value₂.header.etag := by
  obtain ⟨info₁, hrec₁, hgen₁, hheader₁⟩ := h₁.recorded
  obtain ⟨info₂, hrec₂, hgen₂, hheader₂⟩ := h₂.recorded
  rw [hobj₁] at hrec₁
  rw [hobj₂] at hrec₂
  rw [hheader₁, hheader₂]
  exact ho.recorded hrec₁ hrec₂ (by rw [hgen₁, hgen, hgen₂])

/-- Validators that carry the same strong `ETag` match. -/
theorem matchesWith_of_tag {u v : Validators} {tag : String} (hu : u.etag = some tag)
    (hv : v.etag = some tag) (hstrong : isWeak tag = false) : u.matchesWith v = true := by
  simp [Validators.matchesWith, strongEq, hu, hv, hstrong]

end

/-- **One version for each generation gives one version to each response.**  For an
origin that honours ranges and replaces the object whenever it likes, and for every
interleaving: the slices returned for a plan are all slices of one version, the one
the plan's validators name, and the slices ever stored under one generation carry
matching validators. -/
theorem responses_single_version {V : Type} {origin : Origin V} {object : ObjectId}
    {cfg : Config} {p : Process} {steps : List Process.Step}
    (hkeep : Process.Along Process.KeepsSize (Process.first cfg) steps)
    (hrun : (Process.first cfg).run steps = some p)
    (hhonours : origin.Honours object p.pool.hist)
    (hone : OneVersionEach object p.pool.hist) :
    (∀ plan, Outcome.planned (.ok plan) ∈ p.pool.results → plan.object = object →
      ∃ v, plan.info.etag = some (origin.tag v) ∧ plan.totalLen = (origin.content v).length ∧
        ∀ index value, Outcome.sliced plan index (.ok value) ∈ p.pool.results →
          value.payload = tile (origin.content v) p.cfg.sliceSize index) ∧
    ∀ e₁ ∈ p.pool.hist, ∀ e₂ ∈ p.pool.hist, ∀ key₁ value₁ writer₁ key₂ value₂ writer₂,
      storedBy e₁ = some (key₁, value₁, writer₁) → storedBy e₂ = some (key₂, value₂, writer₂) →
      key₁.object = object → key₂.object = object → key₁.generation = key₂.generation →
      value₁.header.validators.matchesWith value₂.header.validators = true := by
  have hsound := Process.sound_run hkeep hrun
  refine ⟨?_, ?_⟩
  · intro plan hplanned hobject
    have hplan : PlanOk p.pool.hist plan := hsound.follows.pool.result hplanned
    obtain ⟨v, htag, htotal, -⟩ := (hobject ▸ hplan.recorded).version hhonours
    refine ⟨v, htag, hplan.totalLen.trans htotal, ?_⟩
    intro index value hslice
    obtain ⟨-, hsize, writer, hprov⟩ := hsound.follows.pool.result hslice
    obtain ⟨w, htag', hpayload⟩ := hprov.version hhonours hobject
    obtain ⟨info, hrec, hgen, hheader⟩ := hprov.recorded
    have hlabel : value.header.etag = plan.info.etag := by
      rw [hheader]
      exact hone.recorded (hobject ▸ hrec) (hobject ▸ hplan.recorded) hgen
    obtain rfl := origin.tag_injective
      (Option.some.inj ((htag'.symm.trans hlabel).trans htag))
    rw [hpayload, hsize]
    rfl
  · intro e₁ he₁ e₂ he₂ key₁ value₁ writer₁ key₂ value₂ writer₂ hst₁ hst₂ hobj₁ hobj₂ hgen
    have hprov₁ := (hsound.follows.pool.inv.stored e₁ he₁ _ _ _ hst₁).2
    have hprov₂ := (hsound.follows.pool.inv.stored e₂ he₂ _ _ _ hst₂).2
    obtain ⟨v, htag, -⟩ := hprov₁.version hhonours hobj₁
    have hlabel := hone.stored hprov₁ hprov₂ hobj₁ hobj₂ hgen
    exact matchesWith_of_tag htag (hlabel.symm.trans htag) (origin.tag_strong v)

namespace Scenario

open Process

/-- Three versions of one byte each. -/
def versions : Origin (Fin 3) where
  content := ![[1], [2], [3]]
  tag := ![ "\"v1\"", "\"v2\"", "\"v3\""]
  tag_injective := by decide
  tag_strong := by decide

/-- The origin's answer while it has the version with this label and byte. -/
def version (etag : String) (byte : UInt8) : Choice := reply etag "bytes 0-0/1" [byte]

/-- Version 1 is planned, stored and returned. -/
def oneVersion : List Step :=
  coldRequest 0 "bytes=0-" (version "\"v1\"" 1) 1 ++
    fetch 1 (plan "\"v1\"" 1 0 0 0 .miss) 0 [.go]

theorem responses_single_version_one :
    ∃ p, (first config).run oneVersion = some p ∧
      (versions.Honours object p.pool.hist ∧ OneVersionEach object p.pool.hist ∧
        Outcome.planned (.ok (plan "\"v1\"" 1 0 0 0 .miss)) ∈ p.pool.results ∧
        Outcome.sliced (plan "\"v1\"" 1 0 0 0 .miss) 0 (.ok (stored "\"v1\"" 1 0 [1])) ∈
          p.pool.results) ∧
      ∃ v, some "\"v1\"" = some (versions.tag v) ∧
        [1] = tile (versions.content v) p.cfg.sliceSize 0 := by
  obtain ⟨p, hrun, hhonours, hone, hplanned, hslice⟩ := exists_run (first config) oneVersion
    (fun p => versions.Honours object p.pool.hist ∧ OneVersionEach object p.pool.hist ∧
      Outcome.planned (.ok (plan "\"v1\"" 1 0 0 0 .miss)) ∈ p.pool.results ∧
      Outcome.sliced (plan "\"v1\"" 1 0 0 0 .miss) 0 (.ok (stored "\"v1\"" 1 0 [1])) ∈
        p.pool.results) (by decide +kernel)
  obtain ⟨v, htag, -, hslices⟩ := (responses_single_version (along_keepsSize (by decide)) hrun
    hhonours hone).1 _ hplanned rfl
  exact ⟨p, hrun, ⟨hhonours, hone, hplanned, hslice⟩, v, htag, hslices _ _ hslice⟩

/-- Version 1 is planned.  Its slice is evicted, the origin moves to version 2, and
two tasks fetch the slice and see the change. -/
def twoMismatches : List Step :=
  coldRequest 0 "bytes=0-" (version "\"v1\"" 1) 1 ++
    fetch 1 (plan "\"v1\"" 1 0 0 0 .miss) 0
      [.evicted, .resolved (.ok ()), version "\"v2\"" 2, .go] ++
    fetch 2 (plan "\"v1\"" 1 0 0 0 .miss) 0
      [.go, .resolved (.ok ()), version "\"v2\"" 2, .go]

/-- The first of them invalidates the object and a new request probes version 2;
the second invalidates the object again, dropping that request's cell, and another
request probes version 3.  Only then do both probes read the generation. -/
def twoProbes : List Step :=
  tasks 1 [.go, .go, .go] ++ request "bytes=0-" :: tasks 3 (probing (version "\"v2\"" 2)) ++
    tasks 2 [.go, .go, .go] ++ request "bytes=0-" :: tasks 4 (probing (version "\"v3\"" 3)) ++
    tasks 3 (committing 1) ++ tasks 4 (committing 1)

def mixedVersions : List Step :=
  twoMismatches ++ twoProbes ++ fetch 5 (plan "\"v2\"" 1 2 0 0 .miss) 0 [.go]

/-- The plan names version 2, and its only slice has the byte of version 3. -/
theorem response_of_other_version :
    ∃ p, (first config).run mixedVersions = some p ∧ versions.Honours object p.pool.hist ∧
      Outcome.planned (.ok (plan "\"v2\"" 1 2 0 0 .miss)) ∈ p.pool.results ∧
      Outcome.sliced (plan "\"v2\"" 1 2 0 0 .miss) 0 (.ok (stored "\"v3\"" 1 2 [3])) ∈
        p.pool.results ∧
      ∀ v, versions.tag v = "\"v2\"" → [3] ≠ tile (versions.content v) config.sliceSize 0 := by
  obtain ⟨p, hrun, hhonours, hplanned, hslice⟩ := exists_run (first config) mixedVersions
    (fun p => versions.Honours object p.pool.hist ∧
      Outcome.planned (.ok (plan "\"v2\"" 1 2 0 0 .miss)) ∈ p.pool.results ∧
      Outcome.sliced (plan "\"v2\"" 1 2 0 0 .miss) 0 (.ok (stored "\"v3\"" 1 2 [3])) ∈
        p.pool.results) (by decide +kernel)
  exact ⟨p, hrun, hhonours, hplanned, hslice, by decide⟩

end Scenario

end Cachic
