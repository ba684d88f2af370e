import Cachic.Orchestrator.Process
import Cachic.Orchestrator.Cold
import Cachic.Proxy.Server

/-!
# Serving a known object, byte for byte

A request for an object whose metadata is known, over a store that holds any part
of it, from an origin that answers every range exactly: `serve_exact` says what
comes back for every `Range` header there is.  Parsing, resolving, the span of
slice indices, each slice's extent and each payload's window are five separate
computations, and the answer is right only if they agree at every boundary.

The request runs alone, but the store may drop any slice at any step.  The one
invariant of the run is `Resident`: whatever slice of the object is there is
exact, and nobody is fetching one.
-/

namespace Cachic

open Range Tiling ActionLang

/-! ## The object, its origin and the store -/

/-- A ranged request is answered with exactly the bytes it asks for, under
validators that match. -/
def AnswersExactly (content : List UInt8) (validators : Validators) (request : Request)
    (raw : RawResponse) : Prop :=
  ∀ start stop, request.range = some (start, stop) →
    raw.status = 206 ∧ raw.failure = none ∧ raw.chunks.flatten = window content start (stop + 1) ∧
      (∀ n ∈ raw.declared, n = raw.chunks.flatten.length) ∧
      validators.matchesWith raw.head.validators = true

/-- The same for the ranges that begin inside the object. -/
def AnswersInside (content : List UInt8) (validators : Validators) (request : Request)
    (raw : RawResponse) : Prop :=
  ∀ start stop, request.range = some (start, stop) → start < content.length →
    raw.status = 206 ∧ raw.failure = none ∧ raw.chunks.flatten = window content start (stop + 1) ∧
      (∀ n ∈ raw.declared, n = raw.chunks.flatten.length) ∧
      validators.matchesWith raw.head.validators = true

theorem AnswersExactly.inside {content : List UInt8} {validators : Validators} {request : Request}
    {raw : RawResponse} (h : AnswersExactly content validators request raw) :
    AnswersInside content validators request raw := fun start stop hrange _ => h start stop hrange

/-- A correct answer is exact, under validators that the right ones match. -/
theorem AnswersCorrectly.inside {content : List UInt8} {expected validators : Validators}
    {request : Request} {raw : RawResponse}
    (h : AnswersCorrectly content validators request raw)
    (hmatch : expected.matchesWith validators = true) :
    AnswersInside content expected request raw := by
  intro start stop hrange hstart
  simp only [AnswersCorrectly, hrange, hstart, if_true] at h
  obtain ⟨hstatus, hfailure, hbody, hdeclared, -, hvalidators⟩ := h
  exact ⟨hstatus, hfailure, hbody, hdeclared, by rw [hvalidators, hmatch]⟩

/-- The store's own reads and writes succeed. -/
def StoreWorks (choose : Act → Shared → Choice) : Prop := ∀ a s text, choose a s ≠ .storeFails text

/-- Of the slices `among`, those of an object's generation that are stored are exact; and no
slice of it is in flight. -/
structure ResidentOn (among : ℕ → Prop) (sliceSize : ℕ) (content : List UInt8)
    (object : ObjectId) (generation : ℕ) (s : Shared) : Prop where
  exact : ∀ i value, among i → s.store ⟨object, generation, i⟩ = some value →
    value.payload = tile content sliceSize i
  idle : ∀ i, s.flightOf ⟨object, generation, i⟩ = none

/-- Every stored slice of an object's generation is exact, and none is in flight. -/
abbrev Resident (sliceSize : ℕ) (content : List UInt8) (object : ObjectId) (generation : ℕ)
    (s : Shared) : Prop :=
  ResidentOn (fun _ => True) sliceSize content object generation s

section Resident

variable {among : ℕ → Prop} {sliceSize : ℕ} {content : List UInt8} {object : ObjectId}
  {generation : ℕ} {s s' : Shared}

/-- It is about the store and the flights only. -/
theorem ResidentOn.of_eq (h : ResidentOn among sliceSize content object generation s)
    (hstore : s'.store = s.store) (hflight : s'.flightOf = s.flightOf) :
    ResidentOn among sliceSize content object generation s' :=
  ⟨fun i value hi hvalue => h.exact i value hi (hstore ▸ hvalue),
    fun i => by rw [hflight, h.idle i]⟩

/-- Evictions leave exact slices. -/
theorem ResidentOn.evicted (h : ResidentOn among sliceSize content object generation s)
    (hevicted : Evicted s s') : ResidentOn among sliceSize content object generation s' :=
  ⟨fun i value hi hvalue => h.exact i value hi (hevicted.of_some hvalue),
    fun i => by rw [hevicted.flightOf, h.idle i]⟩

/-- A slice that was fetched and stored is one more exact slice. -/
theorem ResidentOn.stored (h : ResidentOn among sliceSize content object generation s) {i : ℕ}
    {value : SliceValue} (hvalue : value.payload = tile content sliceSize i)
    (hstore : s'.store = Function.update s.store ⟨object, generation, i⟩ (some value))
    (hflight : s'.flightOf = Function.update s.flightOf ⟨object, generation, i⟩ none) :
    ResidentOn among sliceSize content object generation s' := by
  constructor
  · intro j found hj hfound
    rw [hstore, Function.update_apply] at hfound
    split at hfound
    · next hkey =>
        cases hkey
        cases hfound
        exact hvalue
    · exact h.exact j found hj hfound
  · intro j
    rw [hflight, Function.update_apply]
    split
    · rfl
    · exact h.idle j

end Resident

/-! ## Slices -/

section Slices

variable {choose : Act → Shared → Choice} {cfg : Config} {plan : Plan} {content : List UInt8}
  {among : ℕ → Prop} {s : Shared}

/-- An exact answer to a slice's extent is accepted, and is the slice's tile. -/
theorem acceptSlice_exact {url : String} {headers : HeaderMap} {i : ℕ} {raw : RawResponse}
    (htotal : plan.totalLen = content.length)
    (hceiling : cfg.sliceSize ≤ cfg.client.maxBodyBytes) (hindex : i < 2 ^ 32)
    (hi : i * cfg.sliceSize < content.length)
    (hraw : AnswersInside content plan.info.validators
      { url := url
        range := some ((sliceExtent i cfg.sliceSize plan.totalLen).start,
          (sliceExtent i cfg.sliceSize plan.totalLen).stop)
        headers := headers } raw) :
    ∃ value response, acceptSlice cfg plan i (receive cfg.client url
        (sliceExtent i cfg.sliceSize plan.totalLen).start
        (sliceExtent i cfg.sliceSize plan.totalLen).stop raw) = .ok (value, response) ∧
      value.payload = tile content cfg.sliceSize i := by
  have hpos := cfg.sliceSize_pos
  have hword := cfg.sliceSize_valid.offset_lt hindex
  have hstart : (sliceExtent i cfg.sliceSize plan.totalLen).start < content.length := by
    rw [htotal, sliceExtent_eq hpos hword hi]
    exact hi
  obtain ⟨hstatus, hfailure, hbody, hdeclared, hvalidators⟩ := hraw _ _ rfl hstart
  rw [htotal] at hbody ⊢
  rw [window_sliceExtent hpos hword hi] at hbody
  have hlen : (tile content cfg.sliceSize i).length =
      min ((i + 1) * cfg.sliceSize) content.length - i * cfg.sliceSize := by
    rw [tile, length_window]
  have hmul : (i + 1) * cfg.sliceSize = i * cfg.sliceSize + cfg.sliceSize := by ring
  have hlimit : (tile content cfg.sliceSize i).length ≤ cfg.client.bodyLimit
      (sliceExtent i cfg.sliceSize content.length).start
      (sliceExtent i cfg.sliceSize content.length).stop := by
    have hrange : (tile content cfg.sliceSize i).length ≤
        min ((i + 1) * cfg.sliceSize) content.length - 1 + 1 - i * cfg.sliceSize := by omega
    rw [sliceExtent_eq hpos hword hi]
    exact ClientConfig.le_bodyLimit hrange (by omega) (by omega)
  rw [receive_206 hstatus hfailure (fun n hn => by rw [hdeclared n hn, hbody]; exact hlimit)
    (by rw [hbody]; exact hlimit)]
  have hexpected : (sliceExtent i cfg.sliceSize plan.totalLen).len =
      raw.chunks.flatten.length := by
    rw [htotal, hbody, sliceExtent_len_tile hpos hword hi]
  have hmatch : plan.info.validators.matchesWith
      (UpstreamResponse.validators ⟨206, raw.headers, raw.chunks.flatten⟩) = true := hvalidators
  refine ⟨{ header := headerFor plan.info cfg.sliceSize, payload := raw.chunks.flatten },
    ⟨206, raw.headers, raw.chunks.flatten⟩, ?_, hbody⟩
  simp only [acceptSlice, hmatch, hexpected, Bool.not_true, Bool.false_eq_true, if_false, ne_eq,
    not_true_eq_false]

/-- **A slice is exact wherever it comes from**: the store has it, or the origin does. -/
theorem ResidentOn.run_slice (hsolo : Solo (AnswersInside content plan.info.validators) choose)
    (hworks : StoreWorks choose) (hranges : plan.info.noRanges = false)
    (htotal : plan.totalLen = content.length)
    (hceiling : cfg.sliceSize ≤ cfg.client.maxBodyBytes) {i : ℕ} (hindex : i < 2 ^ 32)
    (hi : i * cfg.sliceSize < content.length) (hamong : among i) (url : String)
    (headers : HeaderMap)
    (h : ResidentOn among cfg.sliceSize content plan.object plan.info.generation s) :
    ∃ value s', (slice cfg plan url headers i).run exec choose s = some (.ok value, s') ∧
      value.payload = tile content cfg.sliceSize i ∧
      ResidentOn among cfg.sliceSize content plan.object plan.info.generation s' ∧
      SameKnowledge s s' := by
  obtain ⟨entry, s₁, henter⟩ := exec_storeEnter_enabled (plan.sliceKey i)
    (choose (.storeEnter (plan.sliceKey i)) s) s
  have hevicted := Evicted.settle s (plan.sliceKey i) (choose (.storeEnter (plan.sliceKey i)) s)
  have hsettled := h.evicted hevicted
  rw [slice, hranges]
  simp only [Bool.false_eq_true, if_false]
  rcases exec_storeEnter_cases henter with ⟨text, hfails, -, -⟩ | ⟨value, hvalue, rfl, rfl⟩ |
    ⟨flight, -, hflight, -, -⟩ | ⟨-, -, rfl, hs₁⟩
  · exact absurd hfails (hworks _ _ _)
  · -- the store still has it
    refine ⟨value, _, ?_, hsettled.exact i value hamong hvalue, hsettled, hevicted.same⟩
    have hhit : (getOrFetch (plan.sliceKey i) (fetchSlice cfg plan url headers i)).run exec choose
        s = some (.ok value, s.settle (plan.sliceKey i)
          (choose (.storeEnter (plan.sliceKey i)) s)) :=
      Prog.run_perform_bind_of_eq exec henter _
    exact Prog.run_bind_of_eq exec hhit _
  · -- nobody else can be fetching it while the task runs alone
    have hidle := h.idle i
    rw [Plan.sliceKey, hidle] at hflight
    cases hflight
  · -- it was never there or has just been evicted, and the origin is asked for its extent
    obtain ⟨raw, hraw, hfetch⟩ := hsolo.run_fetchSlice cfg plan url headers i s₁
    obtain ⟨value, response, haccept, hvalue⟩ :=
      acceptSlice_exact htotal hceiling hindex hi hraw
    rw [haccept] at hfetch
    have hrun := run_getOrFetch_lead henter hfetch
    have hs₃ : (s₁.finished ⟨plan.sliceKey i, s.fresh⟩ (.ok (value, response))).flightOf =
        Function.update
          (s.settle (plan.sliceKey i) (choose (.storeEnter (plan.sliceKey i)) s)).flightOf
          (plan.sliceKey i) none := by
      rw [hs₁]
      simp [Shared.finished, Shared.resolve, Shared.setSlice, hevicted.flightOf]
    subst hs₁
    exact ⟨value, _, Prog.run_bind_of_eq exec hrun _, hvalue,
      hsettled.stored hvalue rfl hs₃, hevicted.same.trans ⟨rfl, rfl, rfl⟩⟩

/-- The slice as it would be stored. -/
def exactSlice (cfg : Config) (plan : Plan) (content : List UInt8) (i : ℕ) : SliceValue where
  header := headerFor plan.info cfg.sliceSize
  payload := tile content cfg.sliceSize i

/-- What is sent of a slice depends on its payload alone. -/
theorem piece_congr {value value' : SliceValue} (h : value.payload = value'.payload) (url : String)
    (i : ℕ) : piece cfg plan url i value = piece cfg plan url i value' := by
  simp only [piece, SliceValue.payloadWindow, h]

/-- Whichever slice `among` the object's is asked for in a state with `I`, the exact one is
returned, and `I` still holds. -/
def SlicesExact (among : ℕ → Prop) (cfg : Config) (plan : Plan) (content : List UInt8)
    (choose : Act → Shared → Choice) (url : String) (headers : HeaderMap) (I : Shared → Prop) :
    Prop :=
  ∀ i s, among i → i < 2 ^ 32 → i * cfg.sliceSize < content.length → I s →
    ∃ value s', (slice cfg plan url headers i).run exec choose s = some (.ok value, s') ∧
      value.payload = tile content cfg.sliceSize i ∧ I s'

/-- Over a store of exact slices and an exact origin they are. -/
theorem ResidentOn.slicesExact (hsolo : Solo (AnswersInside content plan.info.validators) choose)
    (hworks : StoreWorks choose) (hranges : plan.info.noRanges = false)
    (htotal : plan.totalLen = content.length)
    (hceiling : cfg.sliceSize ≤ cfg.client.maxBodyBytes) (url : String) (headers : HeaderMap)
    (s₀ : Shared) :
    SlicesExact among cfg plan content choose url headers fun s =>
      ResidentOn among cfg.sliceSize content plan.object plan.info.generation s ∧
        SameKnowledge s₀ s := by
  rintro i s hamong hindex hi ⟨h, hsame⟩
  obtain ⟨value, s', hslice, hvalue, h', hsame'⟩ :=
    h.run_slice hsolo hworks hranges htotal hceiling hindex hi hamong url headers
  exact ⟨value, s', hslice, hvalue, h', hsame.trans hsame'⟩

section SlicesExact

variable {url : String} {headers : HeaderMap} {I : Shared → Prop}

/-- Slices of the object that run on leave such a state. -/
theorem SlicesExact.run_runOn (hslices : SlicesExact among cfg plan content choose url headers I)
    {wanted : List ℕ}
    (hwanted : ∀ i ∈ wanted, among i ∧ i < 2 ^ 32 ∧ i * cfg.sliceSize < content.length)
    (h : I s) :
    ∃ s', (runOn cfg plan url headers wanted).run exec choose s = some ((), s') ∧ I s' := by
  induction wanted generalizing s with
  | nil => exact ⟨s, rfl, h⟩
  | cons i rest ih =>
      obtain ⟨hamong, hindex, hi⟩ := hwanted i List.mem_cons_self
      obtain ⟨value, s₁, hslice, -, h₁⟩ := hslices i s hamong hindex hi h
      obtain ⟨s', hrest, h'⟩ := ih (fun j hj => hwanted j (List.mem_cons_of_mem i hj)) h₁
      exact ⟨s', (Prog.run_bind_of_eq exec hslice _).trans hrest, h'⟩

/-- Sending slices of the object sends the exact ones. -/
theorem SlicesExact.run_sendSlices
    (hslices : SlicesExact among cfg plan content choose url headers I) {wanted : List ℕ}
    (hwanted : ∀ i ∈ wanted, among i ∧ i < 2 ^ 32 ∧ i * cfg.sliceSize < content.length)
    (h : I s) :
    ∃ s', (sendSlices cfg plan url headers wanted).run exec choose s =
        some (Body.ofSlices cfg plan url (exactSlice cfg plan content) wanted, s') ∧ I s' := by
  induction wanted generalizing s with
  | nil => exact ⟨s, rfl, h⟩
  | cons i rest ih =>
      obtain ⟨hamong, hindex, hi⟩ := hwanted i List.mem_cons_self
      obtain ⟨value, s₁, hslice, hvalue, h₁⟩ := hslices i s hamong hindex hi h
      have hrest := fun j hj => hwanted j (List.mem_cons_of_mem i hj)
      have hpiece : piece cfg plan url i value =
          piece cfg plan url i (exactSlice cfg plan content i) := piece_congr hvalue url i
      rw [sendSlices, Prog.run_bind_of_eq exec hslice]
      simp only [hpiece, Body.ofSlices]
      cases piece cfg plan url i (exactSlice cfg plan content i) with
      | error e =>
          obtain ⟨s', hrun, h'⟩ :=
            hslices.run_runOn (fun j hj => hrest j (List.mem_of_mem_take hj)) h₁
          exact ⟨s', Prog.run_bind_of_eq exec hrun _, h'⟩
      | ok bytes =>
          obtain ⟨s', hrun, h'⟩ := ih hrest h₁
          exact ⟨s', Prog.run_bind_of_eq exec hrun _, h'⟩

end SlicesExact

/-- The slices of a plan lie in the object. -/
theorem mem_indices (htotal : plan.totalLen = content.length)
    (hwanted : plan.wanted.start ≤ plan.wanted.stop ∧ plan.wanted.stop < content.length)
    (hcount : content.length ≤ 2 ^ 32 * cfg.sliceSize) {i : ℕ} (hi : i ∈ indices cfg plan) :
    i < 2 ^ 32 ∧ i * cfg.sliceSize < content.length := by
  have hpos := cfg.sliceSize_pos
  have hlast : plan.wanted.stop / cfg.sliceSize < 2 ^ 32 := by
    rw [Nat.div_lt_iff_lt_mul hpos]
    omega
  have hnonempty : plan.totalLen ≠ 0 := by omega
  rw [indices, if_neg hnonempty, indices_plan hpos hwanted.1 hlast, List.mem_range'_1] at hi
  have hmul : i * cfg.sliceSize ≤ plan.wanted.stop := by
    rw [← Nat.le_div_iff_mul_le hpos]
    omega
  exact ⟨by omega, by omega⟩

/-- A plan for some byte is answered with what sending its slices comes to. -/
theorem run_respond_of_send {url : String} {headers : HeaderMap} {body : Body} {s' : Shared}
    (hnonempty : plan.totalLen ≠ 0) (horder : plan.wanted.start ≤ plan.wanted.stop)
    (hword : plan.wanted.stop + 1 < 2 ^ 64) (hostname : String)
    (hsend : (sendSlices cfg plan url headers (indices cfg plan)).run exec choose s =
      some (body, s')) :
    (respond cfg hostname plan url headers false).run exec choose s =
        some ({ status := plan.status, headers := plan.headers hostname, body := body }, s') ∧
      plan.bodyLen = plan.wanted.stop + 1 - plan.wanted.start := by
  have hlen : plan.bodyLen = plan.wanted.stop + 1 - plan.wanted.start := by
    rw [Plan.bodyLen, if_neg hnonempty, ByteRange.len_eq horder hword]
  have hsome : ¬ (false || decide (plan.bodyLen = 0)) = true := by
    simp only [Bool.false_or, decide_eq_true_eq]
    omega
  rw [respond, if_neg hsome]
  exact ⟨Prog.run_bind_of_eq exec hsend _, hlen⟩

/-- **The body of a plan**: exactly the bytes it wants. -/
theorem SlicesExact.run_respond {url : String} {headers : HeaderMap} {I : Shared → Prop}
    (hslices : SlicesExact among cfg plan content choose url headers I)
    (hamong : ∀ i ∈ indices cfg plan, among i) (htotal : plan.totalLen = content.length)
    (hwanted : plan.wanted.start ≤ plan.wanted.stop ∧ plan.wanted.stop < content.length)
    (hcount : content.length ≤ 2 ^ 32 * cfg.sliceSize) (hostname : String) (h : I s) :
    ∃ s', (respond cfg hostname plan url headers false).run exec choose s =
        some ({ status := plan.status
                headers := plan.headers hostname
                body := { sent := window content plan.wanted.start (plan.wanted.stop + 1)
                          failure := none } }, s') ∧
      plan.bodyLen = (window content plan.wanted.start (plan.wanted.stop + 1)).length ∧ I s' := by
  have hsize := cfg.sliceSize_valid.atMost
  have hword : plan.wanted.stop + 1 < 2 ^ 64 := by
    have := Nat.mul_le_mul_left (2 ^ 32) hsize
    omega
  have hnonempty : plan.totalLen ≠ 0 := by omega
  have hwindow : (window content plan.wanted.start (plan.wanted.stop + 1)).length =
      plan.wanted.stop + 1 - plan.wanted.start := by
    rw [length_window]
    omega
  obtain ⟨s', hsend, h'⟩ := hslices.run_sendSlices
    (fun i hi => ⟨hamong i hi, mem_indices htotal hwanted hcount hi⟩) h
  have hbody := @Body.ofSlices_exact cfg plan url content (exactSlice cfg plan content) htotal
    (fun _ => ⟨hwanted.1, htotal ▸ hwanted.2⟩) hcount fun i _ => rfl
  rw [hbody] at hsend
  obtain ⟨hrespond, hlen⟩ := run_respond_of_send hnonempty hwanted.1 hword hostname hsend
  exact ⟨s', hrespond, hlen.trans hwindow.symm, h'⟩

end Slices

/-! ## Serving -/

/-- The right answer to a GET of `content`: the bytes the header names with a 206 and
their place, a 416 when it names none, and all of it when there is no header that
parses. -/
def RightAnswer (content : List UInt8) (spec : Option RangeSpec) (response : Response) : Prop :=
  let total := content.length
  match spec with
  | none =>
      response.status = 200 ∧ response.body = { sent := content, failure := none } ∧
        response.headers.lookup "content-length" = some (toString total) ∧
        response.headers.lookup "content-range" = none
  | some spec =>
      let start := (spec.span total).start
      let stop := (spec.span total).stop
      if spec.select content = [] then
        response.status = 416 ∧ response.body = .empty ∧
          response.headers.lookup "content-range" = some s!"bytes */{total}"
      else
        response.status = 206 ∧
          response.body = { sent := spec.select content, failure := none } ∧
          response.headers.lookup "content-length" = some (toString (spec.select content).length) ∧
          response.headers.lookup "content-range" = some s!"bytes {start}-{stop}/{total}"

theorem lookup_optionalHeader (name name' : String) (h : name' ≠ name) (value : Option String) :
    (optionalHeader name value).lookup name' = none := by
  have hne : (name' == name) = false := beq_eq_false_iff_ne.mpr h
  unfold optionalHeader
  split
  · split
    · simp [List.lookup_cons, hne]
    · rfl
  · rfl

theorem lookup_contentLength (plan : Plan) (hostname : String) :
    (plan.headers hostname).lookup "content-length" = some (toString plan.bodyLen) := rfl

/-- The place of a response's bytes is announced by the plan alone. -/
theorem lookup_contentRange (plan : Plan) (hostname : String) :
    (plan.headers hostname).lookup "content-range" =
      plan.contentRange.lookup "content-range" := by
  have hfixed : [("content-length", toString plan.bodyLen), ("accept-ranges", "bytes"),
      ("x-cache", plan.cacheStatus.asStr), ("x-lancache-processed-by", hostname),
      ("x-cachic-service", plan.service)].lookup "content-range" = none := rfl
  simp only [Plan.headers, List.lookup_append, hfixed, Option.none_or,
    lookup_optionalHeader "content-type" "content-range" (by decide),
    lookup_optionalHeader "etag" "content-range" (by decide),
    lookup_optionalHeader "last-modified" "content-range" (by decide),
    Option.or_none]

/-- A request that runs alone for an object of known metadata: its origin answers
exactly, its resident slices are exact, and it is neither empty nor longer than the
slice indices reach. -/
structure KnownObject (cfg : Config) (key : CacheKey) (info : ObjectMeta) (content : List UInt8)
    (choose : Act → Shared → Choice) (s : Shared) : Prop where
  solo : Solo (AnswersExactly content info.validators) choose
  works : StoreWorks choose
  knows : Knows s (cfg.objectId key) info
  ranges : info.noRanges = false
  total : info.totalLen = content.length
  resident : Resident cfg.sliceSize content (cfg.objectId key) info.generation s
  nonempty : 0 < content.length
  addressable : content.length ≤ (2 ^ 32 - 1) * cfg.sliceSize
  ceiling : cfg.sliceSize ≤ cfg.client.maxBodyBytes

/-- What serving an object takes once its metadata is there: its length is right, and
whatever is planned from it gets exact slices `among` those of the object, in states with
`I`. -/
structure Servable (among : ℕ → Prop) (cfg : Config) (key : CacheKey) (info : ObjectMeta)
    (content : List UInt8)
    (choose : Act → Shared → Choice) (url : String) (forwarded : HeaderMap) (I : Shared → Prop) :
    Prop where
  slices : ∀ spec wanted status, SlicesExact among cfg (knownPlan cfg key info spec wanted status)
    content choose url forwarded I
  evicted : ∀ {s s'}, I s → Evicted s s' → I s'
  total : info.totalLen = content.length
  nonempty : 0 < content.length
  addressable : content.length ≤ (2 ^ 32 - 1) * cfg.sliceSize

/-- The slices that an answer to a range of an object of this length takes. -/
def Wanted (cfg : Config) (spec : Option RangeSpec) (totalLen i : ℕ) : Prop :=
  ∃ wanted, wantedRange spec totalLen = .ok wanted ∧ i ∈ (Range.plan wanted cfg.sliceSize).indices

section Serve

variable {cfg : Config} {key : CacheKey} {info : ObjectMeta} {content : List UInt8}
  {choose : Act → Shared → Choice} {s s₁ : Shared} {rawRange : Option String} {probedHere : Bool}
  {url : String} {forwarded : HeaderMap} {I : Shared → Prop} {among : ℕ → Prop}

/-- An exact origin that honours ranges, and a store of exact slices. -/
theorem servable_of_resident (hsolo : Solo (AnswersInside content info.validators) choose)
    (hworks : StoreWorks choose) (hranges : info.noRanges = false)
    (htotal : info.totalLen = content.length) (hnonempty : 0 < content.length)
    (haddressable : content.length ≤ (2 ^ 32 - 1) * cfg.sliceSize)
    (hceiling : cfg.sliceSize ≤ cfg.client.maxBodyBytes) (key : CacheKey) (url : String)
    (forwarded : HeaderMap) (s₀ : Shared) :
    Servable among cfg key info content choose url forwarded fun s =>
      ResidentOn among cfg.sliceSize content (cfg.objectId key) info.generation s ∧
        SameKnowledge s₀ s where
  slices := fun spec wanted status => @ResidentOn.slicesExact choose cfg
    (knownPlan cfg key info spec wanted status) content among hsolo hworks hranges htotal hceiling
    url forwarded s₀
  evicted := fun h hevicted => ⟨h.1.evicted hevicted, h.2.trans hevicted.same⟩
  total := htotal
  nonempty := hnonempty
  addressable := haddressable

/-- What can be planned is sent. -/
theorem Servable.run_serve_wanted
    (h : Servable among cfg key info content choose url forwarded I)
    (hamong : ∀ i, Wanted cfg (requestedSpec rawRange) content.length i → among i)
    {wanted : ByteRange}
    (hmetadata : (metadata cfg key (cfg.objectId key) url forwarded
      (probeIndexOf cfg (requestedSpec rawRange))).run exec choose s =
        some (.ok (info, probedHere), s₁))
    (hs₁ : I s₁) (hwanted : wantedRange (requestedSpec rawRange) info.totalLen = .ok wanted)
    (hostname : String) :
    ∃ status s', let plan := knownPlan cfg key info (requestedSpec rawRange) wanted status
      (serve cfg hostname key url forwarded rawRange none false).run exec choose s =
        some (.ok { status := plan.status
                    headers := plan.headers hostname
                    body := { sent := window content wanted.start (wanted.stop + 1)
                              failure := none } }, s') ∧
      plan.bodyLen = (window content wanted.start (wanted.stop + 1)).length ∧ I s' := by
  have hempty : info.totalLen ≠ 0 := by
    have := h.nonempty
    rw [h.total]
    omega
  have hbounds := wantedRange_bounds (fun _ => requestedSpec_ordered) hwanted hempty
  rw [h.total] at hbounds
  have hcount : content.length ≤ 2 ^ 32 * cfg.sliceSize :=
    le_trans h.addressable (Nat.mul_le_mul_right _ (by decide))
  obtain ⟨status, s₂, hplan, hevicted⟩ := run_plan_of_metadata hmetadata hwanted
  have hindices : ∀ i ∈ indices cfg (knownPlan cfg key info (requestedSpec rawRange) wanted
      status), among i := by
    intro i hi
    have htotal : (knownPlan cfg key info (requestedSpec rawRange) wanted status).totalLen ≠ 0 :=
      hempty
    rw [indices, if_neg htotal] at hi
    exact hamong i ⟨wanted, h.total ▸ hwanted, hi⟩
  obtain ⟨s', hrespond, hlen, hs'⟩ := (h.slices (requestedSpec rawRange) wanted status).run_respond
    hindices h.total hbounds hcount hostname (h.evicted hs₁ hevicted)
  refine ⟨status, s', ?_, hlen, hs'⟩
  rw [serve, Prog.run_bind_of_eq exec hplan]
  exact Prog.run_bind_of_eq exec hrespond _

/-- **Whatever range is asked for, the answer is right**, once the metadata is
there. -/
theorem Servable.run_serve (h : Servable among cfg key info content choose url forwarded I)
    (hamong : ∀ i, Wanted cfg (requestedSpec rawRange) content.length i → among i)
    (hmetadata : (metadata cfg key (cfg.objectId key) url forwarded
      (probeIndexOf cfg (requestedSpec rawRange))).run exec choose s =
        some (.ok (info, probedHere), s₁))
    (hs₁ : I s₁) (hostname : String) :
    ∃ response s', (serve cfg hostname key url forwarded rawRange none false).run exec choose s =
        some (.ok response, s') ∧
      RightAnswer content (requestedSpec rawRange) response ∧ I s' := by
  have hpos : content.length > 0 := h.nonempty
  cases hspec : requestedSpec rawRange with
  | none =>
      -- an absent header and one that does not parse are planned alike
      have hwanted : wantedRange (requestedSpec rawRange) info.totalLen =
          .ok { start := 0, stop := content.length - 1 } := by
        simp [hspec, wantedRange, whole, h.total, hpos]
      obtain ⟨status, s', hrun, hlen, hs'⟩ :=
        h.run_serve_wanted hamong hmetadata hs₁ hwanted hostname
      have hall : window content 0 (content.length - 1 + 1) = content := by
        rw [Nat.sub_add_cancel hpos]
        exact window_of_length_le le_rfl
      rw [hall] at hrun hlen
      refine ⟨_, s', hrun, ⟨?_, rfl, ?_, ?_⟩, hs'⟩
      · simp [knownPlan, hspec]
      · rw [lookup_contentLength, hlen]
      · simp [lookup_contentRange, Plan.contentRange, knownPlan, hspec]
  | some spec =>
      have hordered := requestedSpec_ordered hspec
      cases hresolve : resolve spec content.length with
      | error e =>
          -- resolving fails exactly for the specs that name no byte
          have hnone : spec.select content = [] := by
            rw [← resolve_eq_error_iff hordered, hresolve, resolve_error hresolve]
          have hwanted : wantedRange (requestedSpec rawRange) info.totalLen =
              .error (.unsatisfiable content.length) := by
            simp [hspec, wantedRange, h.total, hresolve]
          refine ⟨unsatisfiableResponse hostname content.length, s₁, ?_, ?_, hs₁⟩
          · rw [serve, Prog.run_bind_of_eq exec (run_plan_unresolved hmetadata hwanted)]
            rfl
          · rw [RightAnswer, if_pos hnone]
            exact ⟨rfl, rfl, rfl⟩
      | ok wanted =>
          have hsome : spec.select content ≠ [] := by
            intro hnone
            rw [(resolve_eq_error_iff hordered).mpr hnone] at hresolve
            cases hresolve
          have hwanted : wantedRange (requestedSpec rawRange) info.totalLen = .ok wanted := by
            simp [hspec, wantedRange, h.total, hresolve]
          obtain ⟨status, s', hrun, hlen, hs'⟩ :=
            h.run_serve_wanted hamong hmetadata hs₁ hwanted hostname
          rw [window_resolve hresolve] at hrun hlen
          refine ⟨_, s', hrun, ?_, hs'⟩
          rw [RightAnswer, if_neg hsome]
          refine ⟨?_, rfl, ?_, ?_⟩
          · simp [knownPlan, hspec]
          · rw [lookup_contentLength, hlen]
          · simp [lookup_contentRange, Plan.contentRange, knownPlan, hspec, h.total, hpos,
              ← resolve_eq_span hresolve]

/-- **A known object is served byte for byte**: for every `Range` header the answer
is the right one. -/
theorem serve_exact (h : KnownObject cfg key info content choose s) (hostname url : String)
    (forwarded : HeaderMap) :
    ∃ response s', (serve cfg hostname key url forwarded rawRange none false).run exec choose s =
        some (.ok response, s') ∧
      RightAnswer content (requestedSpec rawRange) response := by
  obtain ⟨index, seen, hmetadata, -⟩ := h.solo.run_metadata h.knows cfg key url forwarded
    (probeIndexOf cfg (requestedSpec rawRange))
  have hservable : Servable (fun _ => True) cfg key info content choose url forwarded _ :=
    servable_of_resident (h.solo.mono fun _ _ => AnswersExactly.inside) h.works h.ranges h.total
      h.nonempty h.addressable h.ceiling key url forwarded { s with index := index }
  obtain ⟨response, s', hrun, hright, -⟩ :=
    hservable.run_serve (fun _ _ => trivial) hmetadata ⟨h.resident.of_eq rfl rfl, .refl _⟩
      hostname
  exact ⟨response, s', hrun, hright⟩

end Serve

namespace Scenario

/-- An origin that answers every range of `content` exactly, and a world that does
nothing else. -/
def exactWorld (content : List UInt8) : Act → Shared → Choice
  | .now, _ => .time 0
  | .resolve _, _ => .resolved (.ok ())
  | .send _ request, _ =>
      match request.range with
      | some (start, stop) => reply "\"v1\"" "" (window content start (stop + 1))
      | none => reply "\"v1\"" "" content
  | _, _ => .go

/-- A process that has just started over a directory that knows the object and holds
no slice of it. -/
def knownStart (content : List UInt8) : Shared :=
  .boot (ObjectIndex.empty.put object (info "\"v1\"" content.length 0)) (fun _ => none) 0

theorem knownObject {content : List UInt8} (hpos : 0 < content.length)
    (hlen : content.length ≤ 4096) :
    KnownObject config key (info "\"v1\"" content.length 0) content (exactWorld content)
      (knownStart content) where
  solo :=
    { clock := fun _ => ⟨0, rfl⟩
      resolves := fun _ _ => rfl
      sends := by
        intro purpose request s
        obtain ⟨url, range, headers⟩ := request
        cases range with
        | none => exact ⟨_, rfl, fun _ _ h => by cases h⟩
        | some range =>
            refine ⟨raw "\"v1\"" "" (window content range.1 (range.2 + 1)), rfl, ?_⟩
            intro start stop h
            cases h
            exact ⟨rfl, rfl, List.append_nil _, fun _ hn => (by cases hn), rfl⟩ }
  works := by
    intro a s text
    unfold exactWorld
    split <;> try split
    all_goals simp [reply]
  knows := .inl ⟨ObjectIndex.get_put_self _ _ _, rfl⟩
  ranges := rfl
  total := rfl
  resident := ⟨fun _ _ _ h => (by cases h), fun _ => rfl⟩
  nonempty := hpos
  addressable := le_trans hlen (by decide)
  ceiling := by decide

/-- The last two of three bytes. -/
theorem serve_exact_suffix :
    ∃ response s', (serve config "cache" key url [] (some "bytes=-2") none false).run exec
        (exactWorld [1, 2, 3]) (knownStart [1, 2, 3]) = some (.ok response, s') ∧
      RightAnswer [1, 2, 3] (requestedSpec (some "bytes=-2")) response :=
  serve_exact (knownObject (by decide) (by decide)) "cache" url []

/-- A range that parses and begins behind the end of the object is not answered with a
206. -/
theorem serve_behind_end :
    KnownObject config key (info "\"v1\"" 1 0) [1] (exactWorld [1]) (knownStart [1]) ∧
      parseRange "bytes=5-" = .ok (.from 5) ∧
      ((serve config "cache" key url [] (some "bytes=5-") none false).run exec (exactWorld [1])
        (knownStart [1])).map (fun r => r.1.toOption.map Response.status) = some (some 416) :=
  ⟨@knownObject [1] (by decide) (by decide), by decide +kernel, by decide +kernel⟩

end Scenario

end Cachic
