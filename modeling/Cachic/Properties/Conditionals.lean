import Cachic.Orchestrator.Process
import Cachic.Orchestrator.Solo

/-!
# A client's conditional headers

The headers of the client whose request misses go out with the probe and the slice
fetches, and `forwarded_request_headers` lets the conditional ones through.  An
origin evaluates them against its own representation, so what it answers, and with
it what is written to the index and the store for everybody, can depend on one
client's `If-Range` or `If-None-Match`.

`RfcOrigin` is an origin that follows RFC 9110: a request's conditional fields come to
one of four `Verdict`s.  `indifferent_iff` says that two clients cannot be told
apart by what is cached exactly when their fields come to the same one.
-/

namespace Cachic

open Range Tiling CharText ActionLang

/-! ## Conditional fields -/

def conditionalHeaders : List String :=
  ["if-match", "if-unmodified-since", "if-none-match", "if-modified-since", "if-range"]

namespace HeaderMap

/-- The fields that are not conditional. -/
def unconditional (headers : HeaderMap) : HeaderMap :=
  headers.filter fun field => !conditionalHeaders.contains field.1

/-- Every value of a field. -/
def values (headers : HeaderMap) (name : String) : List String :=
  (headers.filter fun field => field.1 = name).map Prod.snd

end HeaderMap

/-- `Connection` is not a conditional field. -/
theorem connectionNamed_unconditional (headers : HeaderMap) :
    connectionNamed headers.unconditional = connectionNamed headers := by
  have hfilter : (headers.unconditional.filter fun field => field.1 = "connection") =
      headers.filter fun field => field.1 = "connection" := by
    rw [HeaderMap.unconditional, List.filter_filter]
    refine List.filter_congr fun field _ => ?_
    by_cases hname : field.1 = "connection"
    · -- the name is not in the list of conditional fields
      rw [hname]
      decide
    · simp [hname]
  simp only [connectionNamed, hfilter]

/-- What is forwarded of the other fields depends on the other fields alone. -/
theorem unconditional_forwarded (headers : HeaderMap) :
    (forwardedRequestHeaders headers).unconditional =
      forwardedRequestHeaders headers.unconditional := by
  rw [forwardedRequestHeaders, forwardedRequestHeaders, connectionNamed_unconditional]
  exact List.filter_comm _ _ _

/-! ## An origin that follows RFC 9110 -/

/-- What conditional fields come to. -/
inductive Verdict
  | preconditionFailed
  | notModified
  /-- `If-Range` fails, and the range is ignored. -/
  | whole
  | ranged
  deriving DecidableEq, Repr

/-- Three questions tell the four verdicts apart. -/
theorem Verdict.eq_of_iff {v w : Verdict}
    (hfailed : v = .preconditionFailed ↔ w = .preconditionFailed)
    (hnotModified : v = .notModified ↔ w = .notModified) (hwhole : v = .whole ↔ w = .whole) :
    v = w := by
  cases v <;> cases w <;> simp_all

/-- A selected representation, and how the origin evaluates each conditional field
against it, given the field's values.  `true` is a condition that holds. -/
structure Representation where
  content : List UInt8
  etag : Option String
  lastModified : Option String
  contentType : Option String
  ifMatch : List String → Bool
  ifUnmodifiedSince : List String → Bool
  ifNoneMatch : List String → Bool
  ifModifiedSince : List String → Bool
  ifRange : List String → Bool

/-- A condition, if its field is present. -/
def condition (headers : HeaderMap) (name : String) (holds : List String → Bool) : Option Bool :=
  match headers.values name with
  | [] => none
  | values => some (holds values)

namespace Representation

variable (chosen : Representation)

/-- The order of evaluation: `If-Match` hides `If-Unmodified-Since`, `If-None-Match`
hides `If-Modified-Since`, and `If-Range` comes last. -/
def verdict (headers : HeaderMap) : Verdict :=
  let current := (condition headers "if-match" chosen.ifMatch).or
    (condition headers "if-unmodified-since" chosen.ifUnmodifiedSince)
  let modified := (condition headers "if-none-match" chosen.ifNoneMatch).or
    (condition headers "if-modified-since" chosen.ifModifiedSince)
  let sameRange := condition headers "if-range" chosen.ifRange
  if current = some false then .preconditionFailed
  else if modified = some false then .notModified
  else if sameRange = some false then .whole
  else .ranged

/-- The fields that describe the representation. -/
def fields : HeaderMap :=
  (chosen.etag.map fun value => ("etag", value)).toList ++
    (chosen.lastModified.map fun value => ("last-modified", value)).toList ++
    (chosen.contentType.map fun value => ("content-type", value)).toList

/-- All of it. -/
def full : RawResponse where
  status := 200
  headers := ("content-length", String.ofList (decimal chosen.content.length)) :: chosen.fields
  declared := some chosen.content.length
  chunks := [chosen.content]
  failure := none

/-- The bytes of a range that starts inside it, cut off at its end. -/
def part (start stop : ℕ) : RawResponse where
  status := 206
  headers :=
    let length := chosen.content.length
    let last := min stop (length - 1)
    ("content-range", s!"bytes {start}-{last}/{length}") :: chosen.fields
  declared := some (window chosen.content start (stop + 1)).length
  chunks := [window chosen.content start (stop + 1)]
  failure := none

end Representation

/-- An answer without a body. -/
def RawResponse.bare (status : ℕ) (headers : HeaderMap) : RawResponse where
  status := status
  headers := headers
  declared := some 0
  chunks := []
  failure := none

/-- One object of an origin.  Which representation is selected may depend on any
field that is not conditional. -/
structure RfcOrigin where
  select : HeaderMap → Representation

namespace RfcOrigin

variable (origin : RfcOrigin)

/-- What the conditional fields of a request come to. -/
def verdict (headers : HeaderMap) : Verdict :=
  (origin.select headers.unconditional).verdict headers

/-- The answer to a request. -/
def answer (request : Request) : RawResponse :=
  let chosen := origin.select request.headers.unconditional
  match chosen.verdict request.headers with
  | .preconditionFailed => .bare 412 []
  | .notModified => .bare 304 chosen.fields
  | .whole => chosen.full
  | .ranged =>
      match request.range with
      | none => chosen.full
      | some (start, stop) =>
          if start < chosen.content.length then chosen.part start stop
          -- no byte of the content lies in the range
          else
            let length := chosen.content.length
            .bare 416 [("content-range", s!"bytes */{length}")]

/-- The answers such an origin gives. -/
def Answers (request : Request) (raw : RawResponse) : Prop := raw = origin.answer request

/-- The plainest world with such an origin in it. -/
def world : Act → Shared → Choice
  | .now, _ => .time 0
  | .resolve _, _ => .resolved (.ok ())
  | .send _ request, _ => .reply (.ok (origin.answer request))
  | _, _ => .go

theorem solo_world : Solo origin.Answers origin.world where
  clock _ := ⟨0, rfl⟩
  resolves _ _ := rfl
  sends _ _ _ := ⟨_, rfl, rfl⟩

end RfcOrigin

/-! ## Equal verdicts: nothing tells the clients apart -/

section Alike

variable {origin : RfcOrigin} {choose : Act → Shared → Choice} {h₁ h₂ : HeaderMap}

/-- Fields with the same other part and the same verdict get the same answers. -/
theorem RfcOrigin.answer_congr (hsame : h₁.unconditional = h₂.unconditional)
    (hverdict : origin.verdict h₁ = origin.verdict h₂) (url : String) (range : Option (ℕ × ℕ)) :
    origin.answer { url := url, range := range, headers := h₁ } =
      origin.answer { url := url, range := range, headers := h₂ } := by
  unfold RfcOrigin.verdict at hverdict
  rw [hsame] at hverdict
  simp only [answer, hsame, hverdict]

variable (hsolo : Solo origin.Answers choose) (hsame : h₁.unconditional = h₂.unconditional)
  (hverdict : origin.verdict h₁ = origin.verdict h₂)

include hsolo hsame hverdict

theorem fetchRange_alike (client : ClientConfig)
    (purpose : Purpose) (url : String) (start stop : ℕ) :
    Prog.Alike exec choose (fetchRange client purpose url h₁ start stop)
      (fetchRange client purpose url h₂ start stop) := by
  intro s
  obtain ⟨raw₁, hraw₁, hrun₁⟩ := hsolo.run_fetchRange client purpose url h₁ start stop s
  obtain ⟨raw₂, hraw₂, hrun₂⟩ := hsolo.run_fetchRange client purpose url h₂ start stop s
  have hraw : raw₁ = raw₂ := by
    rw [hraw₁, hraw₂]
    exact RfcOrigin.answer_congr hsame hverdict url _
  rw [hrun₁, hrun₂, hraw]

theorem fetchStream_alike (purpose : Purpose) (url : String) :
    Prog.Alike exec choose (fetchStream purpose url h₁) (fetchStream purpose url h₂) := by
  intro s
  obtain ⟨raw₁, hraw₁, hrun₁⟩ := hsolo.run_fetchStream purpose url h₁ s
  obtain ⟨raw₂, hraw₂, hrun₂⟩ := hsolo.run_fetchStream purpose url h₂ s
  have hraw : raw₁ = raw₂ := by
    rw [hraw₁, hraw₂]
    exact RfcOrigin.answer_congr hsame hverdict url _
  rw [hrun₁, hrun₂, hraw]

theorem probe_alike (cfg : Config) (key : CacheKey)
    (object : ObjectId) (url : String) (index : ℕ) :
    Prog.Alike exec choose (probe cfg key object url h₁ index)
      (probe cfg key object url h₂ index) :=
  (fetchRange_alike hsolo hsame hverdict _ _ _ _ _).bind fun _ => .refl _

/-- A fill reaches the origin once, at its start. -/
theorem ensureFilled_alike (cfg : Config) (plan : Plan)
    (url : String) (index : ℕ) :
    Prog.Alike exec choose (ensureFilled cfg plan url h₁ index)
      (ensureFilled cfg plan url h₂ index) := by
  have hfill : ∀ fill, Prog.Alike exec choose (runFill cfg plan url h₁ fill)
      (runFill cfg plan url h₂ fill) := fun fill =>
    (fetchStream_alike hsolo hsame hverdict _ _).bind fun _ => .refl _
  refine .perform_bind fun resident => ?_
  cases resident with
  | true => exact .refl _
  | false =>
      refine .perform_bind fun role => ?_
      cases role with
      | subscriber fill => exact .refl _
      | filler fill => exact (hfill fill).bind fun _ => .refl _

theorem slice_alike (cfg : Config) (plan : Plan)
    (url : String) (index : ℕ) :
    Prog.Alike exec choose (slice cfg plan url h₁ index) (slice cfg plan url h₂ index) := by
  rw [slice, slice]
  by_cases hno : plan.info.noRanges = true
  · simp only [hno, if_true]
    exact (ensureFilled_alike hsolo hsame hverdict cfg plan url index).bind fun _ => .refl _
  · simp only [hno, Bool.false_eq_true, if_false]
    have hfetch : Prog.Alike exec choose (fetchSlice cfg plan url h₁ index)
        (fetchSlice cfg plan url h₂ index) :=
      (fetchRange_alike hsolo hsame hverdict _ _ _ _ _).bind fun _ => .refl _
    refine Prog.Alike.bind (.perform_bind fun entry => ?_) fun _ => .refl _
    cases entry with
    | lead flight => exact hfetch.bind fun _ => .refl _
    | hit value => exact .refl _
    | join flight => exact .refl _
    | failed e => exact .refl _

end Alike

/-! ## Different verdicts: what tells the clients apart -/

namespace RfcOrigin

variable (origin : RfcOrigin) (client : ClientConfig) (url : String) (headers : HeaderMap)
  (start stop : ℕ)

/-- What the upstream client makes of the answer to a ranged request. -/
def received : Except UpstreamError UpstreamResponse :=
  receive client url start stop
    (origin.answer { url := url, range := some (start, stop), headers := headers })

variable {origin client url headers start stop}

theorem received_preconditionFailed (h : origin.verdict headers = .preconditionFailed) :
    origin.received client url headers start stop = .error (.status url 412) := by
  unfold verdict at h
  simp [received, answer, h, receive, refusal, RawResponse.bare, isRedirection, isSuccess]

theorem header_location_fields (chosen : Representation) :
    HeaderMap.header chosen.fields "location" = none := by
  unfold HeaderMap.header Representation.fields
  cases chosen.etag <;> cases chosen.lastModified <;> cases chosen.contentType <;> rfl

theorem received_notModified (h : origin.verdict headers = .notModified) :
    origin.received client url headers start stop = .error (.redirect url "") := by
  unfold verdict at h
  simp [received, answer, h, receive, refusal, RawResponse.bare, isRedirection,
    header_location_fields]

theorem received_whole (h : origin.verdict headers = .whole) :
    origin.received client url headers start stop =
      .ok (origin.select headers.unconditional).full.head := by
  unfold verdict at h
  simp [received, answer, h, receive, refusal, isRedirection, isSuccess, Representation.full,
    RawResponse.head]

/-- An answered range is a 206, unless it lies outside the content or is too long to
be read. -/
theorem received_ranged (h : origin.verdict headers = .ranged) :
    (∃ response, origin.received client url headers start stop = .ok response ∧
        response.status = 206) ∨
      origin.received client url headers start stop = .error (.status url 416) ∨
      origin.received client url headers start stop =
        .error (.bodyTooLarge url (client.bodyLimit start stop)) ∨
      ∃ source, origin.received client url headers start stop = .error (.request url source) := by
  unfold verdict at h
  by_cases hinside : start < (origin.select headers.unconditional).content.length
  · have hanswer : origin.answer { url := url, range := some (start, stop), headers := headers } =
        (origin.select headers.unconditional).part start stop := by
      simp [answer, h, hinside]
    have hrefusal : refusal url ((origin.select headers.unconditional).part start stop) = none := by
      simp [refusal, Representation.part, isRedirection, isSuccess]
    rw [received, hanswer]
    cases hreceived : receive client url start stop
        ((origin.select headers.unconditional).part start stop) with
    | ok response => exact .inl ⟨response, rfl, (receive_ok hreceived).1⟩
    | error e =>
        rcases receive_error hrefusal hreceived with rfl | ⟨source, rfl⟩
        · exact .inr (.inr (.inl rfl))
        · exact .inr (.inr (.inr ⟨source, rfl⟩))
  · refine .inr (.inl ?_)
    simp [received, answer, h, hinside, receive, refusal, RawResponse.bare, isRedirection,
      isSuccess]

/-- The whole content announces its length. -/
theorem contentLength_full {chosen : Representation} (hlen : chosen.content.length < 2 ^ 64) :
    chosen.full.head.contentLength = some chosen.content.length := by
  have hheader : chosen.full.head.header "content-length" =
      some (String.ofList (decimal chosen.content.length)) := toStr_decimal _
  rw [UpstreamResponse.contentLength, hheader, Option.bind_some, String.toList_ofList,
    trim_decimal, parseUnsigned_decimal hlen]

/-- A probe learns that the origin ignores ranges exactly when `If-Range` failed. -/
theorem shape_received_iff (hlen : (origin.select headers.unconditional).content.length < 2 ^ 64) :
    (∃ response total, origin.received client url headers start stop = .ok response ∧
      shape url response = .ok (total, true)) ↔ origin.verdict headers = .whole := by
  constructor
  · rintro ⟨response, total, hreceived, hshape⟩
    have hstatus := (shape_noRanges hshape).1
    cases hverdict : origin.verdict headers with
    | whole => rfl
    | preconditionFailed =>
        rw [received_preconditionFailed hverdict] at hreceived
        cases hreceived
    | notModified =>
        rw [received_notModified hverdict] at hreceived
        cases hreceived
    | ranged =>
        rcases @received_ranged origin client url headers start stop hverdict with
          ⟨response', hok, h206⟩ | herror | herror | ⟨source, herror⟩
        · rw [hreceived, Except.ok.injEq] at hok
          exact absurd (hok ▸ h206) hstatus
        all_goals
          rw [hreceived] at herror
          cases herror
  · intro hverdict
    have hshape : shape url (origin.select headers.unconditional).full.head =
        .ok ((origin.select headers.unconditional).content.length, true) := by
      simp only [shape, contentLength_full hlen]
      rfl
    exact ⟨_, _, received_whole hverdict, hshape⟩

theorem received_status_iff :
    origin.received client url headers start stop = .error (.status url 412) ↔
      origin.verdict headers = .preconditionFailed := by
  refine ⟨fun h => ?_, received_preconditionFailed⟩
  cases hverdict : origin.verdict headers with
  | preconditionFailed => rfl
  | notModified => simp [received_notModified hverdict] at h
  | whole => simp [received_whole hverdict] at h
  | ranged =>
      rcases @received_ranged origin client url headers start stop hverdict with
        ⟨response, hok, -⟩ | herror | herror | ⟨source, herror⟩
      all_goals simp_all

theorem received_redirect_iff :
    origin.received client url headers start stop = .error (.redirect url "") ↔
      origin.verdict headers = .notModified := by
  refine ⟨fun h => ?_, received_notModified⟩
  cases hverdict : origin.verdict headers with
  | notModified => rfl
  | preconditionFailed => simp [received_preconditionFailed hverdict] at h
  | whole => simp [received_whole hverdict] at h
  | ranged =>
      rcases @received_ranged origin client url headers start stop hverdict with
        ⟨response, hok, -⟩ | herror | herror | ⟨source, herror⟩
      all_goals simp_all

/-- A probe writes that the origin ignores ranges exactly when `If-Range` failed. -/
theorem probe_noRanges_iff (hlen : (origin.select headers.unconditional).content.length < 2 ^ 64)
    (cfg : Config) (key : CacheKey) (object : ObjectId) (index : ℕ) (s : Shared) :
    (∃ info s', (probe cfg key object url headers index).run exec origin.world s =
      some (.ok info, s') ∧ info.noRanges = true) ↔ origin.verdict headers = .whole := by
  obtain ⟨raw, result, s', rfl, hrun, hresult⟩ :=
    origin.solo_world.run_probe cfg key object url headers index s
  rw [← @shape_received_iff origin cfg.client url headers (index * cfg.sliceSize)
    (index * cfg.sliceSize + cfg.sliceSize - 1) hlen, ← ignoresRanges_eq_true_iff, received,
    ← hresult, hrun]
  cases result with
  | error e => simp [Except.map]
  | ok info => simp [Except.map]

/-- A missing slice fails with an upstream error exactly when the client does. -/
theorem slice_upstream_iff {cfg : Config} {plan : Plan} {index : ℕ} {e : UpstreamError}
    (hranges : plan.info.noRanges = false) :
    ((slice cfg plan url headers index).run exec origin.world Shared.init).map Prod.fst =
        some (.error (.store (.fetch (.upstream e)))) ↔
      origin.received cfg.client url headers
        (sliceExtent index cfg.sliceSize plan.totalLen).start
        (sliceExtent index cfg.sliceSize plan.totalLen).stop = .error e := by
  obtain ⟨raw, rfl, hfetch⟩ := origin.solo_world.run_fetchSlice cfg plan url headers index
    { Shared.init with
      flightOf := Function.update Shared.init.flightOf (plan.sliceKey index)
        (some { key := plan.sliceKey index, serial := 0 })
      flights := Function.update Shared.init.flights
        { key := plan.sliceKey index, serial := 0 } .running
      fresh := 1 }
  obtain ⟨s', hrun⟩ := run_slice_lead (s := Shared.init) hranges rfl hfetch rfl
  rw [hrun, Option.map_some, Option.some.injEq, fetchOutcome_upstream_iff,
    acceptSlice_upstream_iff]
  rfl

end RfcOrigin

/-! ## The two clients -/

/-- Nothing that is cached, and no missing slice, shows which of the two clients'
headers were forwarded. -/
structure Indifferent (cfg : Config) (origin : RfcOrigin) (h₁ h₂ : HeaderMap) : Prop where
  succeeds : ∀ choose, Solo origin.Answers choose → ∀ key object url index s,
    (∃ info s', (probe cfg key object url (forwardedRequestHeaders h₁) index).run exec choose s =
        some (.ok info, s')) ↔
      ∃ info s', (probe cfg key object url (forwardedRequestHeaders h₂) index).run exec choose s =
        some (.ok info, s')
  writes : ∀ choose, Solo origin.Answers choose → ∀ key object url index s info₁ s₁ info₂ s₂,
    (probe cfg key object url (forwardedRequestHeaders h₁) index).run exec choose s =
        some (.ok info₁, s₁) →
      (probe cfg key object url (forwardedRequestHeaders h₂) index).run exec choose s =
        some (.ok info₂, s₂) →
      info₁ = info₂ ∧ s₁.index = s₂.index ∧ s₁.store = s₂.store
  slices : ∀ choose, Solo origin.Answers choose → ∀ plan url index s,
    s.store (plan.sliceKey index) = none →
      ((slice cfg plan url (forwardedRequestHeaders h₁) index).run exec choose s).map Prod.fst =
        ((slice cfg plan url (forwardedRequestHeaders h₂) index).run exec choose s).map Prod.fst

section Indifferent

variable {cfg : Config} {origin : RfcOrigin} {h₁ h₂ : HeaderMap}

theorem indifferent_of_verdict
    (hsame : (forwardedRequestHeaders h₁).unconditional =
      (forwardedRequestHeaders h₂).unconditional)
    (hverdict : origin.verdict (forwardedRequestHeaders h₁) =
      origin.verdict (forwardedRequestHeaders h₂)) : Indifferent cfg origin h₁ h₂ where
  succeeds choose hsolo key object url index s := by
    rw [probe_alike hsolo hsame hverdict cfg key object url index s]
  writes choose hsolo key object url index s info₁ s₁ info₂ s₂ hrun₁ hrun₂ := by
    rw [probe_alike hsolo hsame hverdict cfg key object url index s, hrun₂] at hrun₁
    cases hrun₁
    exact ⟨rfl, rfl, rfl⟩
  slices choose hsolo plan url index s _ := by
    rw [slice_alike hsolo hsame hverdict cfg plan url index s]

/-- Probes that succeed alike and write alike agree on whether ranges work. -/
theorem Indifferent.noRanges (h : Indifferent cfg origin h₁ h₂) {choose : Act → Shared → Choice}
    (hsolo : Solo origin.Answers choose) (key : CacheKey) (object : ObjectId) (url : String)
    (index : ℕ) (s : Shared) :
    (∃ info s', (probe cfg key object url (forwardedRequestHeaders h₁) index).run exec choose s =
        some (.ok info, s') ∧ info.noRanges = true) ↔
      ∃ info s', (probe cfg key object url (forwardedRequestHeaders h₂) index).run exec choose s =
        some (.ok info, s') ∧ info.noRanges = true := by
  constructor
  · rintro ⟨info₁, s₁, hrun₁, hno⟩
    obtain ⟨info₂, s₂, hrun₂⟩ :=
      (h.succeeds choose hsolo key object url index s).mp ⟨info₁, s₁, hrun₁⟩
    obtain ⟨rfl, -⟩ := h.writes choose hsolo key object url index s _ _ _ _ hrun₁ hrun₂
    exact ⟨info₁, s₂, hrun₂, hno⟩
  · rintro ⟨info₂, s₂, hrun₂, hno⟩
    obtain ⟨info₁, s₁, hrun₁⟩ :=
      (h.succeeds choose hsolo key object url index s).mpr ⟨info₂, s₂, hrun₂⟩
    obtain ⟨rfl, -⟩ := h.writes choose hsolo key object url index s _ _ _ _ hrun₁ hrun₂
    exact ⟨info₁, s₁, hrun₁, hno⟩

/-- Missing slices that come to the same result fail upstream alike. -/
theorem Indifferent.refused (h : Indifferent cfg origin h₁ h₂) {plan : Plan}
    (hranges : plan.info.noRanges = false) (url : String) (index : ℕ) (e : UpstreamError) :
    origin.received cfg.client url (forwardedRequestHeaders h₁)
        (sliceExtent index cfg.sliceSize plan.totalLen).start
        (sliceExtent index cfg.sliceSize plan.totalLen).stop = .error e ↔
      origin.received cfg.client url (forwardedRequestHeaders h₂)
        (sliceExtent index cfg.sliceSize plan.totalLen).start
        (sliceExtent index cfg.sliceSize plan.totalLen).stop = .error e := by
  rw [← RfcOrigin.slice_upstream_iff hranges, ← RfcOrigin.slice_upstream_iff hranges,
    h.slices origin.world origin.solo_world plan url index Shared.init rfl]

/-- **What conditional headers can do**: two clients whose requests differ in nothing
else are indifferent to the cache exactly when the origin comes to the same verdict
on both. -/
theorem indifferent_iff (hsame : h₁.unconditional = h₂.unconditional)
    (hlen : ∀ fields, (origin.select fields).content.length < 2 ^ 64) :
    Indifferent cfg origin h₁ h₂ ↔
      origin.verdict (forwardedRequestHeaders h₁) =
        origin.verdict (forwardedRequestHeaders h₂) := by
  have hforwarded : (forwardedRequestHeaders h₁).unconditional =
      (forwardedRequestHeaders h₂).unconditional := by
    rw [unconditional_forwarded, unconditional_forwarded, hsame]
  refine ⟨fun h => ?_, indifferent_of_verdict hforwarded⟩
  -- a missing slice and a probe of an empty cache are enough to separate the verdicts
  have hrefused := @Indifferent.refused cfg origin h₁ h₂ h (Scenario.plan "" 0 0 0 0 .miss) rfl "" 0
  refine Verdict.eq_of_iff ?_ ?_ ?_
  · rw [← RfcOrigin.received_status_iff, hrefused, RfcOrigin.received_status_iff]
  · rw [← RfcOrigin.received_redirect_iff, hrefused, RfcOrigin.received_redirect_iff]
  · rw [← RfcOrigin.probe_noRanges_iff (hlen _) cfg Scenario.key Scenario.object 0 Shared.init,
      ← RfcOrigin.probe_noRanges_iff (hlen _) cfg Scenario.key Scenario.object 0 Shared.init]
    exact h.noRanges origin.solo_world Scenario.key Scenario.object "" 0 Shared.init

end Indifferent

namespace Scenario

/-- An object of one byte that the origin can serve in ranges. -/
def depot : RfcOrigin where
  select _ :=
    { content := [1]
      etag := some "\"v1\""
      lastModified := none
      contentType := none
      ifMatch := fun values => values.contains "\"v1\""
      ifUnmodifiedSince := fun _ => true
      ifNoneMatch := fun values => !values.contains "\"v1\""
      ifModifiedSince := fun _ => true
      ifRange := fun values => values.contains "\"v1\"" }

/-- A client that has an older version is answered like one that has none. -/
theorem indifferent_iff_ifNoneMatch :
    Indifferent config depot [] [("if-none-match", "\"v0\"")] :=
  (indifferent_iff (by decide) fun _ => Nat.one_lt_two_pow (by decide)).mpr (by decide)

/-- Run a probe and see whether it takes the origin to ignore ranges. -/
theorem exists_probe {p : Task (Except OrchestratorError ObjectMeta)}
    {choose : Act → Shared → Choice} {s : Shared} {noRanges : Bool}
    (h : ((p.run exec choose s).map fun r => r.1.toOption.map ObjectMeta.noRanges) =
      some (some noRanges)) :
    ∃ info s', p.run exec choose s = some (.ok info, s') ∧ info.noRanges = noRanges := by
  rw [Option.map_eq_some_iff] at h
  obtain ⟨⟨result, s'⟩, hrun, hresult⟩ := h
  cases result with
  | error e => cases hresult
  | ok info => exact ⟨info, s', hrun, Option.some.inj hresult⟩

/-- An `If-Range` that names no version makes the probe record, for every client, that
the origin ignores ranges. -/
theorem distinguished_by_ifRange :
    HeaderMap.unconditional [] = HeaderMap.unconditional [("if-range", "\"v0\"")] ∧
      ¬ Indifferent config depot [] [("if-range", "\"v0\"")] := by
  refine ⟨by decide, fun h => ?_⟩
  obtain ⟨info₁, s₁, hrun₁, hranges⟩ :=
    @exists_probe (probe config key object url (forwardedRequestHeaders []) 0) depot.world
      Shared.init false (by decide +kernel)
  obtain ⟨info₂, s₂, hrun₂, hnoRanges⟩ :=
    @exists_probe (probe config key object url
      (forwardedRequestHeaders [("if-range", "\"v0\"")]) 0) depot.world
      Shared.init true (by decide +kernel)
  obtain ⟨rfl, -⟩ := h.writes depot.world depot.solo_world key object url 0 Shared.init
    info₁ s₁ info₂ s₂ hrun₁ hrun₂
  rw [hranges] at hnoRanges
  cases hnoRanges

end Scenario

end Cachic
