import Cachic.Orchestrator.Process
import Cachic.Orchestrator.Solo

/-!
# A request for an unknown object

What a request that runs alone makes of an object nothing current is known about:
it enters the object's metadata cell, probes with the slice that holds the first
byte asked for, and plans from what the probe wrote.

`AnswersCorrectly` is the origin such a request hopes for.  It has the object, and
answers a range as RFC 9110 says: the bytes asked for when the range starts inside
the object, a 416 when it does not.
-/

namespace Cachic

open Range Tiling CharText ActionLang

/-! ## Evictions -/

/-- `s'` is `s` after some evictions. -/
structure Evicted (s s' : Shared) : Prop where
  store : ∀ key, s'.store key = s.store key ∨ s'.store key = none
  rest : s' = { s with store := s'.store }

namespace Evicted

variable {s s₁ s₂ : Shared}

theorem refl (s : Shared) : Evicted s s := ⟨fun _ => .inl rfl, rfl⟩

theorem trans (h₁ : Evicted s s₁) (h₂ : Evicted s₁ s₂) : Evicted s s₂ := by
  refine ⟨fun key => ?_, ?_⟩
  · rcases h₂.store key with h | h
    · rw [h]
      exact h₁.store key
    · exact .inr h
  · rw [h₂.rest, h₁.rest]

theorem settle (s : Shared) (key : SliceKey) (choice : Choice) :
    Evicted s (s.settle key choice) := by
  cases choice with
  | evicted =>
      refine ⟨fun key' => ?_, rfl⟩
      by_cases hkey : key' = key
      · right
        simp [Shared.settle, Shared.setSlice, hkey]
      · left
        simp [Shared.settle, Shared.setSlice, hkey]
  | _ => exact .refl s

theorem index (h : Evicted s s₁) : s₁.index = s.index := by rw [h.rest]

theorem cellOf (h : Evicted s s₁) : s₁.cellOf = s.cellOf := by rw [h.rest]

theorem cells (h : Evicted s s₁) : s₁.cells = s.cells := by rw [h.rest]

theorem flightOf (h : Evicted s s₁) : s₁.flightOf = s.flightOf := by rw [h.rest]

/-- What is still there was there. -/
theorem of_some (h : Evicted s s₁) {key : SliceKey} {value : SliceValue}
    (hvalue : s₁.store key = some value) : s.store key = some value := by
  rcases h.store key with hsame | hnone
  · rw [← hsame, hvalue]
  · rw [hnone] at hvalue
    cases hvalue

end Evicted

/-- What is known about objects is the same in both states. -/
structure SameKnowledge (s s' : Shared) : Prop where
  index : s'.index = s.index
  cellOf : s'.cellOf = s.cellOf
  cells : s'.cells = s.cells

namespace SameKnowledge

variable {s s₁ s₂ : Shared}

theorem refl (s : Shared) : SameKnowledge s s := ⟨rfl, rfl, rfl⟩

theorem trans (h₁ : SameKnowledge s s₁) (h₂ : SameKnowledge s₁ s₂) : SameKnowledge s s₂ :=
  ⟨h₂.index.trans h₁.index, h₂.cellOf.trans h₁.cellOf, h₂.cells.trans h₁.cells⟩

theorem knows (h : SameKnowledge s s₁) {object : ObjectId} {info : ObjectMeta}
    (hknows : Knows s object info) : Knows s₁ object info := by
  simpa only [Knows, h.index, h.cellOf, h.cells] using hknows

end SameKnowledge

theorem Evicted.same {s s' : Shared} (h : Evicted s s') : SameKnowledge s s' :=
  ⟨h.index, h.cellOf, h.cells⟩

/-- Looking for slices changes nothing but what the store drops meanwhile. -/
theorem run_countResident (choose : Act → Shared → Choice) (object : ObjectId) (generation : ℕ)
    (wanted : List ℕ) (s : Shared) :
    ∃ n s', (countResident object generation wanted).run exec choose s = some (n, s') ∧
      Evicted s s' := by
  induction wanted generalizing s with
  | nil => exact ⟨0, s, rfl, .refl s⟩
  | cons i rest ih =>
      obtain ⟨n, s', hrun, hevicted⟩ := ih (s.settle ⟨object, generation, i⟩
        (choose (.storeContains ⟨object, generation, i⟩) s))
      rw [countResident, Prog.run_perform_bind_of_eq exec
        (a := .storeContains ⟨object, generation, i⟩) rfl]
      exact ⟨_, s', Prog.run_bind_of_eq exec hrun _, (Evicted.settle _ _ _).trans hevicted⟩

theorem run_classifyPlan (choose : Act → Shared → Choice) (cfg : Config) (object : ObjectId)
    (info : ObjectMeta) (wanted : ByteRange) (probedHere : Bool) (probeIndex : ℕ) (s : Shared) :
    ∃ status s', (classifyPlan cfg object info wanted probedHere probeIndex).run exec choose s =
      some (status, s') ∧ Evicted s s' := by
  rw [classifyPlan]
  split
  · exact ⟨.hit, s, rfl, .refl s⟩
  · obtain ⟨n, s', hrun, hevicted⟩ := run_countResident choose object info.generation
      (Range.plan wanted cfg.sliceSize).indices s
    exact ⟨_, s', Prog.run_bind_of_eq exec hrun _, hevicted⟩

/-! ## Planning from metadata -/

/-- What is planned for a request to a known object. -/
def knownPlan (cfg : Config) (key : CacheKey) (info : ObjectMeta) (spec : Option RangeSpec)
    (wanted : ByteRange) (status : CacheStatus) : Plan where
  service := key.service
  status := if spec.isSome then 206 else 200
  wanted := wanted
  totalLen := info.totalLen
  cacheStatus := status
  info := info
  object := cfg.objectId key
  isPartial := spec.isSome

section Planning

variable {choose : Act → Shared → Choice} {cfg : Config} {key : CacheKey} {url : String}
  {headers : HeaderMap} {rawRange : Option String} {info : ObjectMeta} {probedHere : Bool}
  {s s₁ : Shared}

/-- A range that resolves is planned. -/
theorem run_plan_of_metadata {wanted : ByteRange}
    (hmetadata : (metadata cfg key (cfg.objectId key) url headers
      (probeIndexOf cfg (requestedSpec rawRange))).run exec choose s =
        some (.ok (info, probedHere), s₁))
    (hwanted : wantedRange (requestedSpec rawRange) info.totalLen = .ok wanted) :
    ∃ status s', (plan cfg key url headers rawRange).run exec choose s =
        some (.ok (knownPlan cfg key info (requestedSpec rawRange) wanted status), s') ∧
      Evicted s₁ s' := by
  obtain ⟨status, s', hclassify, hevicted⟩ := run_classifyPlan choose cfg (cfg.objectId key) info
    wanted probedHere (probeIndexOf cfg (requestedSpec rawRange)) s₁
  refine ⟨status, s', ?_, hevicted⟩
  rw [Cachic.plan, Prog.run_bind_of_eq exec hmetadata]
  simp only [hwanted]
  exact Prog.run_bind_of_eq exec hclassify _

/-- One that does not is refused. -/
theorem run_plan_unresolved {e : OrchestratorError}
    (hmetadata : (metadata cfg key (cfg.objectId key) url headers
      (probeIndexOf cfg (requestedSpec rawRange))).run exec choose s =
        some (.ok (info, probedHere), s₁))
    (hwanted : wantedRange (requestedSpec rawRange) info.totalLen = .error e) :
    (plan cfg key url headers rawRange).run exec choose s = some (.error e, s₁) := by
  rw [Cachic.plan, Prog.run_bind_of_eq exec hmetadata]
  simp only [hwanted]
  rfl

/-- Without metadata there is no plan. -/
theorem run_plan_of_error {e : OrchestratorError}
    (hmetadata : (metadata cfg key (cfg.objectId key) url headers
      (probeIndexOf cfg (requestedSpec rawRange))).run exec choose s = some (.error e, s₁)) :
    (plan cfg key url headers rawRange).run exec choose s = some (.error e, s₁) := by
  rw [Cachic.plan, Prog.run_bind_of_eq exec hmetadata]
  rfl

end Planning

/-! ## Unknown objects -/

namespace Shared

variable (s : Shared) (object : ObjectId)

/-- The cell a request for the object enters. -/
def cellFor : CellId := (s.cellOf object).getD { object := object, serial := s.fresh }

/-- The state in which a probe starts: its cell is in the map, and the probe's to
set. -/
def entered : Shared :=
  { s with
    cellOf := Function.update s.cellOf object (some (s.cellFor object))
    fresh := if (s.cellOf object).isSome then s.fresh else s.fresh + 1
    cells := Function.update s.cells (s.cellFor object) .busy }

/-- The state after a probe that failed: its cell is in the map, and empty. -/
def abandoned : Shared :=
  { s.entered object with
    cells := Function.update (s.entered object).cells (s.cellFor object) .empty }

end Shared

/-- A request that asks for the object's cell gets one. -/
theorem exec_cell (s : Shared) (object : ObjectId) (choice : Choice) :
    exec (.cell object) choice s =
      some (s.cellFor object, { s.entered object with cells := s.cells }) := by
  cases hof : s.cellOf object with
  | none => simp [exec, hof, Shared.cellFor, Shared.entered]
  | some cell =>
      have hsame : Function.update s.cellOf object (some cell) = s.cellOf := by
        rw [← hof, Function.update_eq_self]
      simp [exec, hof, Shared.cellFor, Shared.entered, hsame]

/-- Nothing current is known about an object, and nobody is finding out. -/
structure Unknown (s : Shared) (object : ObjectId) : Prop where
  stale : ∀ entry ∈ s.index.get object, entry.stale = true
  cell : s.cells (s.cellFor object) = .empty

section Unknown

variable {choose : Act → Shared → Choice} {cfg : Config} {key : CacheKey} {object : ObjectId}
  {url : String} {headers : HeaderMap} {index : ℕ} {s s₁ : Shared}

/-- The first steps of a request for an unknown object lead to its probe. -/
theorem run_coldMetadata_enter (hcell : s.cells (s.cellFor object) = .empty) :
    (coldMetadata cfg key object url headers index).run exec choose s =
      (probe cfg key object url headers index >>= fun result =>
        match result with
        | .ok info => do
            let _ ← ask (.cellInit (s.cellFor object) info)
            return .ok (info, true)
        | .error e => do
            let _ ← ask (.cellAbandon (s.cellFor object))
            return .error e).run exec choose (s.entered object) := by
  have hinit : exec (.cellInitialized (s.cellFor object))
      (choose (.cellInitialized (s.cellFor object)) { s.entered object with cells := s.cells })
      { s.entered object with cells := s.cells } =
        some (false, { s.entered object with cells := s.cells }) := by
    simp only [exec, hcell]
  have henter : exec (.cellEnter (s.cellFor object))
      (choose (.cellEnter (s.cellFor object)) { s.entered object with cells := s.cells })
      { s.entered object with cells := s.cells } = some (.claimed, s.entered object) := by
    simp only [exec, hcell, Shared.entered]
  rw [coldMetadata, Prog.run_perform_bind_of_eq exec (exec_cell s object _),
    Prog.run_perform_bind_of_eq exec hinit, Prog.run_perform_bind_of_eq exec henter]
  rfl

/-- An unknown object's metadata is what its probe returns. -/
theorem run_metadata_probe (hunknown : Unknown s object)
    {result : Except OrchestratorError ObjectMeta}
    (hprobe : (probe cfg key object url headers index).run exec choose (s.entered object) =
      some (result, s₁)) :
    (metadata cfg key object url headers index).run exec choose s =
      some (match result with
        | .ok info => (.ok (info, true),
            { s₁ with cells := Function.update s₁.cells (s.cellFor object) (.ready info) })
        | .error e => (.error e,
            { s₁ with cells := Function.update s₁.cells (s.cellFor object) .empty })) := by
  have hcold : (coldMetadata cfg key object url headers index).run exec choose s =
      some (match result with
        | .ok info => (.ok (info, true),
            { s₁ with cells := Function.update s₁.cells (s.cellFor object) (.ready info) })
        | .error e => (.error e,
            { s₁ with cells := Function.update s₁.cells (s.cellFor object) .empty })) := by
    rw [run_coldMetadata_enter hunknown.cell, Prog.run_bind_of_eq exec hprobe]
    cases result with
    | ok info => rfl
    | error e => rfl
  rw [metadata, Prog.run_perform_bind_of_eq exec (a := .indexGet object .metadata) rfl]
  cases hentry : s.index.get object with
  | none => exact hcold
  | some entry =>
      simp only [hunknown.stale entry hentry, Bool.not_true, Bool.false_eq_true, if_false]
      exact hcold

end Unknown

/-! ## A correct origin -/

/-- What an origin that has `content` under the given validators answers. -/
def AnswersCorrectly (content : List UInt8) (validators : Validators) (request : Request)
    (raw : RawResponse) : Prop :=
  match request.range with
  | none =>
      raw.status = 200 ∧ raw.failure = none ∧ raw.chunks.flatten = content ∧
        raw.head.validators = validators
  | some (start, stop) =>
      if start < content.length then
        raw.status = 206 ∧ raw.failure = none ∧
          raw.chunks.flatten = window content start (stop + 1) ∧
          (∀ n ∈ raw.declared, n = raw.chunks.flatten.length) ∧
          raw.head.contentRangeTotal = some content.length ∧ raw.head.validators = validators
      else raw.status = 416

/-- A correct answer to a range that begins inside the object, as the client receives it,
when it is not too long to be read. -/
theorem receive_correct {content : List UInt8} {validators : Validators} {client : ClientConfig}
    {url : String} {headers : HeaderMap} {start stop : ℕ} {raw : RawResponse}
    (hraw : AnswersCorrectly content validators
      { url := url, range := some (start, stop), headers := headers } raw)
    (hstart : start < content.length)
    (hceiling : (window content start (stop + 1)).length ≤ client.maxBodyBytes)
    (hword : (window content start (stop + 1)).length < 2 ^ 64) :
    receive client url start stop raw =
      .ok { status := 206, headers := raw.headers, body := window content start (stop + 1) } ∧
    raw.head.contentRangeTotal = some content.length ∧ raw.head.validators = validators := by
  simp only [AnswersCorrectly, hstart, if_true] at hraw
  obtain ⟨hstatus, hfailure, hbody, hdeclared, htotal, hvalidators⟩ := hraw
  have hlen : (window content start (stop + 1)).length ≤ stop + 1 - start := by
    rw [length_window]
    omega
  have hlimit := ClientConfig.le_bodyLimit hlen hceiling hword
  rw [receive_206 hstatus hfailure (fun n hn => by rw [hdeclared n hn, hbody]; exact hlimit)
    (by rw [hbody]; exact hlimit), hbody]
  exact ⟨rfl, htotal, hvalidators⟩

/-- The answer to a probe of slice `index`, as the client receives it: the slice, when
the object reaches that far and the slice is not too long to be read. -/
theorem receive_probe {content : List UInt8} {validators : Validators} {cfg : Config}
    {url : String} {headers : HeaderMap} {index : ℕ} {raw : RawResponse}
    (hraw : AnswersCorrectly content validators
      { url := url
        range := some (index * cfg.sliceSize, index * cfg.sliceSize + cfg.sliceSize - 1)
        headers := headers } raw)
    (hinside : index * cfg.sliceSize < content.length) (hindex : index < 2 ^ 32)
    (hceiling : (tile content cfg.sliceSize index).length ≤ cfg.client.maxBodyBytes) :
    receive cfg.client url (index * cfg.sliceSize)
        (index * cfg.sliceSize + cfg.sliceSize - 1) raw =
      .ok { status := 206, headers := raw.headers, body := tile content cfg.sliceSize index } ∧
    raw.head.contentRangeTotal = some content.length ∧ raw.head.validators = validators := by
  have hword := cfg.sliceSize_valid.offset_lt hindex
  have htile := window_slice content cfg.sliceSize_pos index
  have hlen : (tile content cfg.sliceSize index).length ≤ cfg.sliceSize := length_tile_le _ _
  have hreceive := receive_correct hraw hinside (by rw [htile]; exact hceiling)
    (by rw [htile]; omega)
  rwa [htile] at hreceive

/-- The state a probe leaves that learnt `info` with slice `index`. -/
structure Learnt (sliceSize : ℕ) (content : List UInt8) (object : ObjectId) (index : ℕ)
    (s : Shared) (info : ObjectMeta) (s' : Shared) : Prop where
  generation : info.generation = generationOf (s.index.get object)
  total : info.totalLen = content.length
  ranges : info.noRanges = false
  fresh : info.stale = false
  indexed : s'.index.get object = some info
  stored : ∃ value, value.payload = tile content sliceSize index ∧
    s'.store = Function.update s.store ⟨object, info.generation, index⟩ (some value)
  flightOf : s'.flightOf = Function.update s.flightOf ⟨object, info.generation, index⟩ none

section Probe

variable {choose : Act → Shared → Choice} {cfg : Config} {object : ObjectId} {s : Shared}
  {content : List UInt8} {V : Validators → Prop}
  (hsolo : Solo (fun request raw => ∃ validators, V validators ∧
    AnswersCorrectly content validators request raw) choose)
  (hunknown : Unknown s object) (key : CacheKey) (url : String) (headers : HeaderMap) {index : ℕ}

include hsolo hunknown

/-- A probe inside the object learns what it is. -/
theorem run_metadata_inside (hindex : index < 2 ^ 32)
    (hinside : index * cfg.sliceSize < content.length)
    (hceiling : (tile content cfg.sliceSize index).length ≤ cfg.client.maxBodyBytes) :
    ∃ info s', (metadata cfg key object url headers index).run exec choose s =
        some (.ok (info, true), s') ∧
      Learnt cfg.sliceSize content object index s info s' ∧ V info.validators := by
  obtain ⟨raw, now, ⟨validators, hV, hraw⟩, hprobe⟩ := hsolo.run_probe_learn cfg key object url
    headers index (s.entered object)
  obtain ⟨hreceive, htotal, hvalidators⟩ := receive_probe hraw hinside hindex hceiling
  have hshape : shape url
      { status := 206, headers := raw.headers, body := tile content cfg.sliceSize index } =
        .ok (content.length, false) := by
    rw [shape, if_pos rfl, ← @contentRangeTotal_head raw _ rfl, htotal]
  rw [hreceive] at hprobe
  simp only [learn, hshape] at hprobe
  refine ⟨_, _, run_metadata_probe hunknown hprobe, ⟨rfl, rfl, rfl, rfl, ?_, ?_, rfl⟩, ?_⟩
  · exact ObjectIndex.get_put_self _ _ _
  · exact ⟨_, rfl, rfl⟩
  · rw [← hvalidators] at hV
    exact hV

/-- A probe behind its end, or of a slice too long to be read, fails, and leaves
nothing behind but an empty cell. -/
theorem run_metadata_outside
    (houtside : ¬ (index * cfg.sliceSize < content.length ∧
      (tile content cfg.sliceSize index).length ≤ cfg.client.maxBodyBytes)) :
    ∃ e, (metadata cfg key object url headers index).run exec choose s =
      some (.error (.upstream e), s.abandoned object) := by
  obtain ⟨raw, now, ⟨validators, -, hraw⟩, hprobe⟩ := hsolo.run_probe_learn cfg key object url
    headers index (s.entered object)
  cases hreceive : receive cfg.client url (index * cfg.sliceSize)
      (index * cfg.sliceSize + cfg.sliceSize - 1) raw with
  | error e =>
      rw [hreceive] at hprobe
      exact ⟨e, run_metadata_probe hunknown hprobe⟩
  | ok response =>
      -- a success is a 206 with the slice as its body
      obtain ⟨-, -, hsuccess, hbody⟩ := receive_ok hreceive
      by_cases hinside : index * cfg.sliceSize < content.length
      · simp only [AnswersCorrectly, hinside, if_true] at hraw
        obtain ⟨hstatus, -, hchunks, -⟩ := hraw
        rw [if_pos hstatus, hchunks, window_slice content cfg.sliceSize_pos index] at hbody
        have hlen := receive_length_le hreceive
        rw [hbody] at hlen
        exact absurd ⟨hinside, hlen⟩ houtside
      · simp only [AnswersCorrectly, hinside, if_false] at hraw
        rw [hraw] at hsuccess
        cases hsuccess

omit hsolo in
/-- After such a failure the object is as unknown as before. -/
theorem Unknown.abandoned : Unknown (s.abandoned object) object where
  stale := hunknown.stale
  cell := by simp [Shared.cellFor, Shared.abandoned, Shared.entered]

end Probe

/-! ### One such origin -/

namespace Scenario

/-- The text of a `Content-Range`. -/
def contentRangeText (start stop total : ℕ) : List Char :=
  ['b', 'y', 't', 'e', 's', ' '] ++ decimal start ++ '-' :: (decimal stop ++ '/' :: decimal total)

/-- The answer of an origin that has `content` and describes it by the given fields. -/
def correctAnswer (content : List UInt8) (fields : HeaderMap) (request : Request) : RawResponse :=
  match request.range with
  | none =>
      { status := 200, headers := fields, declared := some content.length, chunks := [content]
        failure := none }
  | some (start, stop) =>
      if start < content.length then
        { status := 206
          headers := ("content-range", String.ofList
            (contentRangeText start (min stop (content.length - 1)) content.length)) :: fields
          declared := some (window content start (stop + 1)).length
          chunks := [window content start (stop + 1)]
          failure := none }
      else { status := 416, headers := [], declared := some 0, chunks := [], failure := none }

/-- The validators among some fields. -/
def validatorsOf (fields : HeaderMap) : Validators :=
  { etag := fields.header "etag", lastModified := fields.header "last-modified" }

theorem contentRangeTotal_text (start stop : ℕ) {total : ℕ} (htotal : total < 2 ^ 64)
    (fields : HeaderMap) (status : ℕ) (body : List UInt8) :
    UpstreamResponse.contentRangeTotal
      { status := status
        headers := ("content-range", String.ofList (contentRangeText start stop total)) :: fields
        body := body } = some total := by
  have hreadable : toStr (String.ofList (contentRangeText start stop total)) =
      some (String.ofList (contentRangeText start stop total)) := by
    apply toStr_ofList
    simp only [contentRangeText, List.all_append, List.all_cons, all_visible_decimal]
    decide
  have hsplit : rsplitOnce '/' (contentRangeText start stop total) =
      some (['b', 'y', 't', 'e', 's', ' '] ++ decimal start ++ '-' :: decimal stop,
        decimal total) := by
    rw [rsplitOnce_eq_some_iff]
    exact ⟨by simp [contentRangeText], not_mem_decimal (by decide)⟩
  have hheader : UpstreamResponse.header
      { status := status
        headers := ("content-range", String.ofList (contentRangeText start stop total)) :: fields
        body := body } "content-range" =
      some (String.ofList (contentRangeText start stop total)) := hreadable
  simp only [UpstreamResponse.contentRangeTotal, hheader, String.toList_ofList, hsplit,
    trim_decimal, parseUnsigned_decimal htotal, Option.bind_eq_bind, Option.bind_some]

theorem correctAnswer_correct {content : List UInt8} (hlen : content.length < 2 ^ 64)
    (fields : HeaderMap) (request : Request) :
    AnswersCorrectly content (validatorsOf fields) request
      (correctAnswer content fields request) := by
  unfold AnswersCorrectly correctAnswer
  cases request.range with
  | none => exact ⟨rfl, rfl, List.append_nil _, rfl⟩
  | some range =>
      dsimp only
      split
      · refine ⟨rfl, rfl, List.append_nil _, fun n hn => ?_, ?_, rfl⟩
        · cases hn
          rw [List.flatten_singleton]
        · exact contentRangeTotal_text _ _ hlen _ _ _
      · rfl

/-- The world of a task that runs alone against that origin. -/
def correctWorld (content : List UInt8) (fields : HeaderMap) : Act → Shared → Choice
  | .now, _ => .time 0
  | .resolve _, _ => .resolved (.ok ())
  | .send _ request, _ => .reply (.ok (correctAnswer content fields request))
  | _, _ => .go

theorem correctWorld_solo {content : List UInt8} (hlen : content.length < 2 ^ 64)
    (fields : HeaderMap) :
    Solo (AnswersCorrectly content (validatorsOf fields)) (correctWorld content fields) where
  clock _ := ⟨0, rfl⟩
  resolves _ _ := rfl
  sends _ request _ := ⟨_, rfl, correctAnswer_correct hlen fields request⟩

end Scenario

end Cachic
