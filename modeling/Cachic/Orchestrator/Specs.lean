import Cachic.Orchestrator.Provenance

/-!
# What each program of the orchestrator guarantees

One specification for each program, in the logic of `ActionLang.Protocol` at the
provenance protocol: whatever the other tasks do in between, the metadata a
program returns was recorded by some probe, and the slice it returns has a
provenance.
-/

namespace Cachic

open Range Tiling ActionLang ActionLang.Protocol

/-- The protocol every task follows while slices are stored at the sizes `S`. -/
def provenance (S : ℕ → Prop) : Protocol exec where
  inv := Traced S
  pre := Needs S
  post := Learns S
  admits _ := True
  pre_mono := Needs.mono
  step hinv hpre _ hexec := traced_step hinv hpre hexec

section

variable {S : ℕ → Prop} {h : Hist} {α β : Type}

/-- One action at the head of a program. -/
theorem wp_ask {a : Act} {f : a.Res → Task β} {Q : Hist → β → Prop} (hn : Needs S h a)
    (hnext : ∀ h' r, h ⊆ h' → (⟨a, r⟩ : Event Act Act.Res) ∈ h' → Learns S h' a r →
      (provenance S).wp (f r) Q h') :
    (provenance S).wp (ask a >>= f) Q h :=
  wp_perform_bind hn hnext

/-! ## The index's operations -/

theorem wp_touch (id : ObjectId) : (provenance S).wp (touch id) (fun _ _ => True) h := by
  refine wp_ask trivial fun h₁ found _ _ hfound => ?_
  cases found with
  | none => trivial
  | some info =>
      refine wp_ask trivial fun h₂ now hsub₂ _ _ => ?_
      split
      · trivial
      · refine wp_ask (fun hstale => ?_) fun _ _ _ _ _ => trivial
        exact ((hfound info rfl hstale).mono hsub₂).seen now

theorem wp_invalidate (id : ObjectId) :
    (provenance S).wp (invalidate id) (fun _ _ => True) h := by
  refine wp_ask trivial fun h₁ found _ _ _ => ?_
  cases found with
  | none => trivial
  | some info => exact wp_ask (fun hstale => by cases hstale) fun _ _ _ _ _ => trivial

/-- What only removes needs nothing. -/
theorem wp_of_removes {p : Task β} (hp : p.All fun a => a.removes = true) :
    (provenance S).wp p (fun _ _ => True) h :=
  wp_of_all (hp.imp fun a ha _ => by cases a <;> trivial) h

theorem wp_prune (maxAge : ℕ) : (provenance S).wp (prune maxAge) (fun _ _ => True) h :=
  wp_of_removes (prune_removes maxAge)

theorem wp_purge (cfg : Config) (start : String) :
    (provenance S).wp (purge cfg start) (fun _ _ => True) h :=
  wp_of_removes (purge_removes cfg start)

/-! ## Upstream requests -/

/-- What a fetch returns was answered to its request. -/
def FetchPost (purpose : Purpose) (url : String) (start stop : ℕ) (h : Hist)
    (r : Except UpstreamError UpstreamResponse) : Prop :=
  ∀ response, r = .ok response → Answered h purpose url start stop response

theorem wp_attempt (client : ClientConfig) (purpose : Purpose) (url : String)
    (headers : HeaderMap) (start stop retries : ℕ) :
    (provenance S).wp
      (attempt client purpose { url := url, range := some (start, stop), headers := headers }
        start stop retries)
      (FetchPost purpose url start stop) h := by
  induction retries generalizing h with
  | zero =>
      refine wp_ask trivial fun h₁ answer _ hmem _ => ?_
      cases answer with
      | error source => exact fun response hok => by cases hok
      | ok raw => exact fun response hok => ⟨client, headers, raw, hmem, hok⟩
  | succ retries ih =>
      refine wp_ask trivial fun h₁ answer _ hmem _ => ?_
      cases answer with
      | ok raw => exact fun response hok => ⟨client, headers, raw, hmem, hok⟩
      | error source =>
          simp only
          split
          · exact ih
          · exact fun response hok => by cases hok

theorem wp_fetchRange (client : ClientConfig) (purpose : Purpose) (url : String)
    (headers : HeaderMap) (start stop : ℕ) :
    (provenance S).wp (fetchRange client purpose url headers start stop)
      (FetchPost purpose url start stop) h := by
  refine wp_ask trivial fun h₁ resolved _ _ _ => ?_
  cases resolved with
  | error e => exact fun response hok => by cases hok
  | ok _ => exact wp_attempt client purpose url headers start stop client.retries

theorem wp_fetchStream (object : ObjectId) (header : SliceHeader) (url : String)
    (headers : HeaderMap) :
    (provenance S).wp (fetchStream (.fill object header) url headers)
      (fun h' r => ∀ chunks failure, r = .ok (chunks, failure) →
        ∃ raw, Streamed h' object header raw ∧ raw.chunks = chunks ∧ raw.failure = failure) h := by
  refine wp_ask trivial fun h₁ resolved _ _ _ => ?_
  cases resolved with
  | error e => exact fun chunks failure hok => by cases hok
  | ok _ =>
      refine wp_ask trivial fun h₂ answer _ hmem _ => ?_
      cases answer with
      | error source => exact fun chunks failure hok => by cases hok
      | ok raw =>
          cases hrefusal : refusal url raw with
          | some e =>
              simp only [hrefusal]
              exact fun chunks failure hok => by cases hok
          | none =>
              simp only [hrefusal]
              rintro chunks failure hok
              cases hok
              exact ⟨raw, ⟨url, headers, hmem, hrefusal⟩, rfl, rfl⟩

/-! ## Learning about an object -/

theorem wp_probe (cfg : Config) (hs : S cfg.sliceSize) (key : CacheKey) (object : ObjectId)
    (url : String) (headers : HeaderMap) {index : ℕ} (hindex : index < 2 ^ 32) :
    (provenance S).wp (probe cfg key object url headers index)
      (fun h' r => ∀ info, r = .ok info → Recorded h' object info) h := by
  refine wp_bind_of (wp_fetchRange cfg.client (.probe object index) url headers _ _)
    fun h₁ fetched _ hfetched => ?_
  cases fetched with
  | error e => exact fun info hok => by cases hok
  | ok response =>
      have hanswered := hfetched response rfl
      cases hshape : shape url response with
      | error e =>
          simp only [hshape]
          exact fun info hok => by cases hok
      | ok parts =>
          obtain ⟨totalLen, noRanges⟩ := parts
          simp only [hshape]
          refine wp_ask trivial fun h₂ previous hsub₂ hread _ => ?_
          refine wp_ask trivial fun h₃ now hsub₃ _ _ => ?_
          -- the reading of the generation is the commit everything below rests on
          let c : Commit :=
            { object := object, generation := generationOf previous
              probed := { key := key.key, sliceSize := cfg.sliceSize, index := index
                          response := response, totalLen := totalLen, noRanges := noRanges } }
          have hcommit : c ∈ commits h₃ :=
            List.mem_filterMap.mpr ⟨_, hsub₃ hread, rfl⟩
          have hjust : c.Justified h₃ :=
            ⟨cfg.sliceSize_valid, hindex, url, (hanswered.mono hsub₂).mono hsub₃, hshape⟩
          have hrecorded : Recorded h₃ object (c.probed.info c.generation now) :=
            ⟨c, hcommit, hjust, rfl, now, now, rfl⟩
          cases noRanges with
          | true =>
              refine wp_ask (fun _ => hrecorded) fun h₄ _ hsub₄ _ _ => ?_
              rintro info hok
              cases hok
              exact hrecorded.mono hsub₄
          | false =>
              have hprov := Provenance.probe now hcommit hjust rfl
              refine wp_ask ⟨hs, hprov⟩ fun h₄ _ hsub₄ _ _ => ?_
              refine wp_ask (fun _ => hrecorded.mono hsub₄) fun h₅ _ hsub₅ _ _ => ?_
              rintro info hok
              cases hok
              exact (hrecorded.mono hsub₄).mono hsub₅

/-- What is known about an object's metadata when a request has it. -/
def MetaPost (object : ObjectId) (h : Hist)
    (r : Except OrchestratorError (ObjectMeta × Bool)) : Prop :=
  ∀ info probedHere, r = .ok (info, probedHere) → Recorded h object info

theorem wp_coldMetadata (cfg : Config) (hs : S cfg.sliceSize) (key : CacheKey)
    (object : ObjectId) (url : String) (headers : HeaderMap) {index : ℕ}
    (hindex : index < 2 ^ 32) :
    (provenance S).wp (coldMetadata cfg key object url headers index) (MetaPost object) h := by
  refine wp_ask trivial fun h₁ cell _ _ hcell => ?_
  refine wp_ask trivial fun h₂ initialized _ _ _ => ?_
  refine wp_ask trivial fun h₃ entry _ _ hentry => ?_
  have hobject : cell.object = object := hcell
  cases entry with
  | ready info =>
      rintro info' probedHere hok
      cases hok
      exact hobject ▸ hentry info rfl
  | claimed =>
      refine wp_bind_of (wp_probe cfg hs key object url headers hindex)
        fun h₄ probed _ hprobed => ?_
      cases probed with
      | error e => exact wp_ask trivial fun _ _ _ _ _ info probedHere hok => by cases hok
      | ok info =>
          have hrecorded := hprobed info rfl
          refine wp_ask (hobject ▸ hrecorded : Recorded h₄ cell.object info)
            fun h₅ _ hsub₅ _ _ => ?_
          rintro info' probedHere hok
          cases hok
          exact hrecorded.mono hsub₅

theorem wp_metadata (cfg : Config) (hs : S cfg.sliceSize) (key : CacheKey)
    (object : ObjectId) (url : String) (headers : HeaderMap) {index : ℕ}
    (hindex : index < 2 ^ 32) :
    (provenance S).wp (metadata cfg key object url headers index) (MetaPost object) h := by
  refine wp_ask trivial fun h₁ found _ _ hfound => ?_
  cases found with
  | none => exact wp_coldMetadata cfg hs key object url headers hindex
  | some info =>
      by_cases hstale : info.stale = true
      · simp only [hstale, Bool.not_true, Bool.false_eq_true, if_false]
        exact wp_coldMetadata cfg hs key object url headers hindex
      · have hfresh : info.stale = false := by simpa using hstale
        simp only [hfresh, Bool.not_false, if_true]
        refine wp_bind_of (wp_touch object) fun h₂ _ hsub₂ _ => ?_
        rintro info' probedHere hok
        cases hok
        exact (hfound info rfl hfresh).mono hsub₂

/-! ## Planning -/

theorem wp_classifyPlan (cfg : Config) (object : ObjectId) (info : ObjectMeta)
    (wanted : ByteRange) (probedHere : Bool) (probeIndex : ℕ) :
    (provenance S).wp (classifyPlan cfg object info wanted probedHere probeIndex)
      (fun _ _ => True) h :=
  wp_of_all ((classifyPlan_looks cfg object info wanted probedHere probeIndex).imp
    fun a ha _ => by cases a <;> trivial) h

/-- A plan a request may be served from. -/
structure PlanOk (h : Hist) (plan : Plan) : Prop where
  recorded : Recorded h plan.object plan.info
  totalLen : plan.totalLen = plan.info.totalLen
  wanted : plan.totalLen ≠ 0 → plan.wanted.start ≤ plan.wanted.stop ∧
    plan.wanted.stop < plan.totalLen

theorem PlanOk.mono {h' : Hist} (hsub : h ⊆ h') {plan : Plan} (hp : PlanOk h plan) :
    PlanOk h' plan :=
  { hp with recorded := hp.recorded.mono hsub }

theorem probeIndexOf_lt (cfg : Config) (spec : Option RangeSpec) :
    probeIndexOf cfg spec < 2 ^ 32 := by
  unfold probeIndexOf
  split
  · exact Nat.mod_lt _ (by decide)
  · exact Nat.mod_lt _ (by decide)
  · decide
  · decide

theorem requestedSpec_ordered {rawRange : Option String} {spec : RangeSpec}
    (h : requestedSpec rawRange = some spec) : spec.Ordered := by
  cases rawRange with
  | none => cases h
  | some value =>
      simp only [requestedSpec, Option.map_some] at h
      cases hparse : parseRange value with
      | error e => simp [hparse] at h
      | ok parsed =>
          simp only [hparse, Option.some.injEq] at h
          exact h ▸ parseRange_ordered hparse

theorem wantedRange_bounds {spec : Option RangeSpec} {totalLen : ℕ} {wanted : ByteRange}
    (hspec : ∀ s, spec = some s → s.Ordered) (h : wantedRange spec totalLen = .ok wanted)
    (hlen : totalLen ≠ 0) : wanted.start ≤ wanted.stop ∧ wanted.stop < totalLen := by
  cases spec with
  | none =>
      have hpos : totalLen > 0 := by omega
      simp only [wantedRange, whole, hpos, if_true, Option.getD_some, Except.ok.injEq] at h
      subst h
      constructor
      · simp
      · simp only
        omega
  | some spec =>
      simp only [wantedRange] at h
      cases hres : resolve spec totalLen with
      | error e => simp [hres] at h
      | ok r =>
          simp only [hres, Except.ok.injEq] at h
          exact h ▸ resolve_bounds (hspec spec rfl) hres

theorem wantedRange_error {spec : Option RangeSpec} {totalLen : ℕ} {e : OrchestratorError}
    (h : wantedRange spec totalLen = .error e) : e = .unsatisfiable totalLen := by
  unfold wantedRange at h
  split at h
  · cases h
  · split at h
    · cases h
    · cases h
      rfl

theorem wp_plan (cfg : Config) (hs : S cfg.sliceSize) (key : CacheKey) (url : String)
    (headers : HeaderMap) (rawRange : Option String) :
    (provenance S).wp (plan cfg key url headers rawRange)
      (fun h' r => ∀ p, r = .ok p → PlanOk h' p) h := by
  refine wp_bind_of (wp_metadata cfg hs key (cfg.objectId key) url headers
    (probeIndexOf_lt cfg _)) fun h₁ found _ hfound => ?_
  cases found with
  | error e => exact fun p hok => by cases hok
  | ok parts =>
      obtain ⟨info, probedHere⟩ := parts
      have hrecorded := hfound info probedHere rfl
      cases hwanted : wantedRange (requestedSpec rawRange) info.totalLen with
      | error e =>
          simp only [hwanted]
          exact fun p hok => by cases hok
      | ok wanted =>
          simp only [hwanted]
          refine wp_bind_of (wp_classifyPlan cfg (cfg.objectId key) info wanted probedHere _)
            fun h₂ cacheStatus hsub₂ _ => ?_
          rintro p hok
          cases hok
          exact ⟨hrecorded.mono hsub₂, rfl,
            wantedRange_bounds (fun _ => requestedSpec_ordered) hwanted⟩

/-! ## Filling -/

/-- A fill under way: the stream it reads was answered to it. -/
structure Filling (s : ℕ) (h : Hist) (plan : Plan) (raw : RawResponse) : Prop where
  recorded : Recorded h plan.object plan.info
  noRanges : plan.info.noRanges = true
  streamed : Streamed h plan.object (headerFor plan.info s) raw

theorem Filling.mono {s : ℕ} {h' : Hist} (hsub : h ⊆ h') {plan : Plan} {raw : RawResponse}
    (hf : Filling s h plan raw) : Filling s h' plan raw :=
  ⟨hf.recorded.mono hsub, hf.noRanges, hf.streamed.mono hsub⟩

/-- Cutting whole slices off what has been received so far.  `n` slices have been
cut before, and the buffer is what is left of `received`. -/
theorem wp_cutSlices {s : ℕ} {plan : Plan} {raw : RawResponse} (fill : FillId) (hS : S s)
    (hvalid : ValidSliceSize s)
    {received rest : List UInt8} (hbody : raw.chunks.flatten = received ++ rest)
    (count n : ℕ) (hfill : Filling s h plan raw) (hcount : (n + count) * s ≤ received.length) :
    (provenance S).wp
      (cutSlices plan fill s count (received.drop (n * s)) (n % 2 ^ 32))
      (fun _ r => r = (received.drop ((n + count) * s), (n + count) % 2 ^ 32)) h := by
  induction count generalizing n h with
  | zero => rfl
  | succ count ih =>
      have hnext : (n + 1) * s ≤ received.length :=
        le_trans (Nat.mul_le_mul_right s (by omega)) hcount
      have hmul : (n + 1) * s = n * s + s := by ring
      have hpos := hvalid.atLeast
      have htile : (received.drop (n * s)).take s = tile raw.chunks.flatten s n := by
        rw [hbody, tile_append_left hnext, tile_eq_take_drop]
      have hlen : received.length ≤ raw.chunks.flatten.length := by
        rw [hbody, List.length_append]
        omega
      have hprov : Provenance h (plan.sliceKey (n % 2 ^ 32))
          { header := headerFor plan.info s, payload := (received.drop (n * s)).take s } .fill := by
        rw [htile]
        exact .fill hfill.recorded hfill.noRanges hvalid hfill.streamed (by omega)
          (.inl (by omega))
      have hindex : wrapAdd 32 (n % 2 ^ 32) 1 = (n + 1) % 2 ^ 32 := by
        rw [wrapAdd, Nat.mod_add_mod]
      refine wp_ask ⟨hS, hprov⟩ fun h₁ _ hsub₁ _ _ => ?_
      refine wp_ask trivial fun h₂ _ hsub₂ _ _ => ?_
      have hrest := ih (n + 1) ((hfill.mono hsub₁).mono hsub₂)
        (by rw [show n + 1 + count = n + (count + 1) by omega]; exact hcount)
      rw [hindex, List.drop_drop, ← hmul, show n + (count + 1) = n + 1 + count by omega]
      exact hrest

theorem wp_fillChunks {s : ℕ} {plan : Plan} {raw : RawResponse} (fill : FillId) (hS : S s)
    (hvalid : ValidSliceSize s)
    (chunks : List (List UInt8)) (received : List UInt8)
    (hbody : raw.chunks.flatten = received ++ chunks.flatten) (hfill : Filling s h plan raw) :
    (provenance S).wp
      (fillChunks plan fill s chunks (received.drop (received.length / s * s))
        (received.length / s % 2 ^ 32))
      (fun _ r => r = (raw.chunks.flatten.drop (raw.chunks.flatten.length / s * s),
        raw.chunks.flatten.length / s % 2 ^ 32)) h := by
  induction chunks generalizing received h with
  | nil =>
      obtain rfl : raw.chunks.flatten = received := by simpa using hbody
      rfl
  | cons chunk rest ih =>
      let n := received.length / s
      have hle : n * s ≤ received.length := Nat.div_mul_le_self _ _
      have hbuffer : received.drop (n * s) ++ chunk = (received ++ chunk).drop (n * s) := by
        rw [List.drop_append_of_le_length hle]
      have hbody' : raw.chunks.flatten = (received ++ chunk) ++ rest.flatten := by
        rw [hbody, List.flatten_cons, List.append_assoc]
      have hcount : n + (received.drop (n * s) ++ chunk).length / s =
          (received ++ chunk).length / s := by
        rw [hbuffer, List.length_drop, mul_comm n s, Nat.sub_mul_div]
        have hmono : n ≤ (received ++ chunk).length / s :=
          Nat.div_le_div_right (by rw [List.length_append]; omega)
        omega
      refine wp_bind_of (M := fun _ r => r = ((received ++ chunk).drop
        ((received ++ chunk).length / s * s), (received ++ chunk).length / s % 2 ^ 32)) ?_ ?_
      · rw [← hcount, hbuffer]
        refine wp_cutSlices fill hS hvalid hbody' _ n hfill ?_
        rw [← hbuffer, hcount]
        exact Nat.div_mul_le_self _ _
      · rintro h₁ _ hsub₁ rfl
        exact ih _ hbody' (hfill.mono hsub₁)

theorem wp_runFill (cfg : Config) (hs : S cfg.sliceSize) {plan : Plan} (url : String)
    (headers : HeaderMap) (fill : FillId) (hrec : Recorded h plan.object plan.info)
    (hranges : plan.info.noRanges = true) :
    (provenance S).wp (runFill cfg plan url headers fill) (fun _ _ => True) h := by
  refine wp_bind_of (wp_fetchStream plan.object _ url headers) fun h₁ stream hsub₁ hstream => ?_
  cases stream with
  | error e => trivial
  | ok parts =>
      obtain ⟨chunks, failure⟩ := parts
      obtain ⟨raw, hstreamed, rfl, rfl⟩ := hstream chunks failure rfl
      have hfill : Filling cfg.sliceSize h₁ plan raw := ⟨hrec.mono hsub₁, hranges, hstreamed⟩
      have hchunks := wp_fillChunks fill hs cfg.sliceSize_valid raw.chunks [] rfl hfill
      simp only [List.drop_nil, List.length_nil, Nat.zero_div, Nat.zero_mod] at hchunks
      refine wp_bind_of hchunks ?_
      rintro h₂ _ hsub₂ rfl
      cases hfailure : raw.failure with
      | some source => trivial
      | none =>
          simp only
          split
          · trivial
          · rename_i hne
            have hin : raw.chunks.flatten.length / cfg.sliceSize * cfg.sliceSize <
                raw.chunks.flatten.length := by
              simpa [List.drop_eq_nil_iff] using hne
            have hfill₂ := hfill.mono hsub₂
            have hprov := Provenance.fill hfill₂.recorded hranges cfg.sliceSize_valid
              hfill₂.streamed hin (.inr hfailure)
            rw [tile_last cfg.sliceSize_pos] at hprov
            exact wp_ask ⟨hs, hprov⟩ fun _ _ _ _ _ => wp_ask trivial fun _ _ _ _ _ => trivial

theorem wp_ensureFilled (cfg : Config) (hs : S cfg.sliceSize) {plan : Plan} (url : String)
    (headers : HeaderMap) (index : ℕ) (hrec : Recorded h plan.object plan.info)
    (hranges : plan.info.noRanges = true) :
    (provenance S).wp (ensureFilled cfg plan url headers index) (fun _ _ => True) h := by
  refine wp_ask trivial fun h₁ resident hsub₁ _ _ => ?_
  split
  · trivial
  · refine wp_ask trivial fun h₂ role hsub₂ _ _ => ?_
    cases role with
    | subscriber fill =>
        refine wp_ask trivial fun h₃ answer _ _ _ => ?_
        cases answer with
        | ok _ => trivial
        | error reason => trivial
    | filler fill =>
        refine wp_bind_of (wp_runFill cfg hs url headers fill
          ((hrec.mono hsub₁).mono hsub₂) hranges) fun h₃ result _ _ => ?_
        refine wp_ask trivial fun h₄ _ _ _ _ => ?_
        cases result with
        | error e => exact wp_ask trivial fun _ _ _ _ _ => trivial
        | ok count =>
            refine wp_ask trivial fun h₅ _ _ _ _ => ?_
            split
            · trivial
            · trivial

/-! ## Slices -/

/-- What a fetch hands to the store. -/
def SlicePost (S : ℕ → Prop) (key : SliceKey) (h : Hist)
    (r : Except FetchFailure (SliceValue × UpstreamResponse)) : Prop :=
  ∀ value response, r = .ok (value, response) →
    S value.header.sliceSize ∧ Provenance h key value (.fetch response)

theorem wp_fetchSlice (cfg : Config) (hs : S cfg.sliceSize) {plan : Plan} (url : String)
    (headers : HeaderMap) {index : ℕ} (hplan : PlanOk h plan)
    (hranges : plan.info.noRanges = false) (hindex : index < 2 ^ 32)
    (hin : index * cfg.sliceSize < plan.totalLen) :
    (provenance S).wp (fetchSlice cfg plan url headers index)
      (SlicePost S (plan.sliceKey index)) h := by
  refine wp_bind_of (wp_fetchRange cfg.client (.slice (plan.sliceKey index)) url headers _ _)
    fun h₁ fetched hsub₁ hfetched => ?_
  cases fetched with
  | error e => exact fun value response hok => by cases hok
  | ok response =>
      have hanswered := hfetched response rfl
      rw [hplan.totalLen] at hin hanswered
      simp only
      split
      · exact fun value response hok => by cases hok
      · rename_i hmatch
        split
        · exact fun value response hok => by cases hok
        · rename_i hlen
          rintro value response' hok
          cases hok
          refine ⟨hs, .fetch (hplan.recorded.mono hsub₁) hranges cfg.sliceSize_valid hindex hin
            hanswered ?_ ?_⟩
          · simpa using hmatch
          · rw [hplan.totalLen] at hlen
            exact not_not.mp hlen

theorem wp_getOrFetch {key : SliceKey}
    {fetch : Task (Except FetchFailure (SliceValue × UpstreamResponse))}
    (hfetch : ∀ h', h ⊆ h' → (provenance S).wp fetch (SlicePost S key) h') :
    (provenance S).wp (getOrFetch key fetch)
      (fun h' r => ∀ value, r = .ok value → Held S h' key value) h := by
  refine wp_ask trivial fun h₁ entry hsub₁ _ hentry => ?_
  cases entry with
  | failed e => exact fun value hok => by cases hok
  | hit value =>
      rintro value' hok
      cases hok
      exact hentry
  | join flight =>
      have hkey : flight.key = key := hentry
      refine wp_ask trivial fun h₂ result _ _ hresult => ?_
      cases result with
      | error e => exact fun value hok => by cases hok
      | ok value =>
          rintro value' hok
          cases hok
          exact hkey ▸ hresult value rfl
  | lead flight =>
      have hkey : flight.key = key := hentry
      refine wp_bind_of (hfetch h₁ hsub₁) fun h₂ result _ hresult => ?_
      subst hkey
      refine wp_ask hresult fun h₃ answer _ _ hanswer => ?_
      cases answer with
      | error e => exact fun value hok => by cases hok
      | ok value =>
          rintro value' hok
          cases hok
          exact hanswer value rfl

theorem wp_bumpGeneration (object : ObjectId) :
    (provenance S).wp (bumpGeneration object) (fun _ _ => True) h :=
  wp_bind_of (wp_invalidate object) fun _ _ _ _ => wp_ask trivial fun _ _ _ _ _ => trivial

theorem wp_fetchFailed (plan : Plan) (url : String) (failure : StoreError × Bool) :
    (provenance S).wp (fetchFailed plan url failure) (fun _ _ => True) h := by
  unfold fetchFailed
  split
  · exact wp_bind_of (wp_bumpGeneration plan.object) fun _ _ _ _ => trivial
  · trivial

theorem wp_staleOr (cfg : Config) (key : SliceKey) (e : OrchestratorError) :
    (provenance S).wp (staleOr cfg key e)
      (fun h' r => ∀ value, r = .ok value → Held S h' key value) h := by
  unfold staleOr
  split
  · refine wp_ask trivial fun h₁ found _ _ hfound => ?_
    rcases found with _ | _ | value
    · exact fun value hok => by cases hok
    · exact fun value hok => by cases hok
    · rintro value' hok
      cases hok
      exact hfound value rfl
  · exact fun value hok => by cases hok

/-- **A slice that is returned has a provenance.** -/
theorem wp_slice (cfg : Config) (hs : S cfg.sliceSize) {plan : Plan} (url : String)
    (headers : HeaderMap) {index : ℕ} (hplan : PlanOk h plan) (hindex : index < 2 ^ 32)
    (hin : index * cfg.sliceSize < plan.totalLen) :
    (provenance S).wp (slice cfg plan url headers index)
      (fun h' r => ∀ value, r = .ok value → Held S h' (plan.sliceKey index) value) h := by
  unfold slice
  simp only
  split
  · rename_i hranges
    refine wp_bind_of (wp_ensureFilled cfg hs url headers index hplan.recorded hranges)
      fun h₁ filled _ _ => ?_
    cases filled with
    | error e => exact fun value hok => by cases hok
    | ok _ =>
        refine wp_ask trivial fun h₂ found _ _ hfound => ?_
        rcases found with _ | _ | value
        · exact fun value hok => by cases hok
        · exact fun value hok => by cases hok
        · rintro value' hok
          cases hok
          exact hfound value rfl
  · rename_i hranges
    refine wp_bind_of (wp_getOrFetch fun h' hsub => wp_fetchSlice cfg hs url headers
      (hplan.mono hsub) (by simpa using hranges) hindex hin) fun h₁ result _ hresult => ?_
    cases result with
    | ok value => exact fun v hok => hresult v (by cases hok; rfl)
    | error failure =>
        exact wp_bind_of (wp_fetchFailed plan url failure) fun h₂ e _ _ => wp_staleOr cfg _ e

end

end Cachic
