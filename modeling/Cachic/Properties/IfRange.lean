import Cachic.Orchestrator.Retaining
import Cachic.Properties.RangedPath

/-!
# What an `If-Range` does

A known object whose slices are all there is answered from the store: `storedAnswer` is the
answer as a function of the request's headers, and `sure_serve` says that `serve` gives it,
whatever the clock shows.  `if_range_meaning` compares two of these answers.  A validator that
matches leaves the range in force, and one that does not makes the request one for the whole
object.

The range is resolved before the validator is looked at.  So a range that selects nothing is
refused even when its `If-Range` fails and the range is not to be applied.
-/

namespace Cachic

open Range Tiling ActionLang ActionLang.Prog

/-! ## Answers from the store -/

/-- The response to a plan whose slices are at hand. -/
def storedResponse (cfg : Config) (hostname : String) (plan : Plan) (url : String)
    (value : ℕ → SliceValue) (isHead : Bool) : Response where
  status := plan.status
  headers := plan.headers hostname
  body :=
    if isHead || plan.bodyLen = 0 then .empty
    else Body.ofSlices cfg plan url value (indices cfg plan)

/-- The answer to a request for a known object whose slices are all in the store. -/
def storedAnswer (cfg : Config) (hostname : String) (key : CacheKey) (info : ObjectMeta)
    (url : String) (value : ℕ → SliceValue) (store : SliceKey → Option SliceValue)
    (rawRange ifRange : Option String) (isHead : Bool) : Response :=
  match wantedRange (requestedSpec rawRange) info.totalLen with
  | .error _ => unsatisfiableResponse hostname info.totalLen
  | .ok wanted =>
      let first := storedPlan cfg key info rawRange wanted store
      let served :=
        if ifRangeFails ifRange first then
          storedPlan cfg key info none (wholeWanted info.totalLen) store
        else first
      storedResponse cfg hostname served url value isHead

/-- Every slice of an object is in the store. -/
def AllResident (cfg : Config) (object : ObjectId) (info : ObjectMeta) (value : ℕ → SliceValue)
    (store : SliceKey → Option SliceValue) : Prop :=
  ∀ i, i * cfg.sliceSize < info.totalLen →
    store ⟨object, info.generation, i⟩ = some (value i)

/-- A plan asks for slices of the object only. -/
theorem mul_lt_of_mem_indices {cfg : Config} {key : CacheKey} {info : ObjectMeta}
    {rawRange : Option String} {wanted : ByteRange} {status : CacheStatus} {i : ℕ}
    (hwanted : wantedRange (requestedSpec rawRange) info.totalLen = .ok wanted)
    (hi : i ∈ indices cfg (knownPlan cfg key info (requestedSpec rawRange) wanted status)) :
    i * cfg.sliceSize < info.totalLen := by
  unfold indices at hi
  split at hi
  · cases hi
  case isFalse hlen =>
    obtain ⟨horder, hstop⟩ :=
      wantedRange_bounds (fun _ => requestedSpec_ordered) hwanted hlen
    have hpos := cfg.sliceSize_pos
    have hle : i ≤ wanted.stop / cfg.sliceSize := by
      have hdiv : wanted.start / cfg.sliceSize ≤ wanted.stop / cfg.sliceSize :=
        Nat.div_le_div_right horder
      simp only [knownPlan, SlicePlan.indices, Range.plan, List.mem_range'_1,
        Nat.max_eq_left (show 1 ≤ cfg.sliceSize from hpos)] at hi
      omega
    exact lt_of_le_of_lt ((Nat.le_div_iff_mul_le hpos).mp hle) hstop

section Serving

variable {ok : Choice → Bool} {cfg : Config} {plan : Plan} {url : String}
  {value : ℕ → SliceValue} {s : Shared}

/-- A slice that is there is returned. -/
theorem sure_slice (hreliable : Reliable ok) (headers : HeaderMap) {i : ℕ} {found : SliceValue}
    (hfound : s.store (plan.sliceKey i) = some found) :
    Sure (restrict ok exec) (slice cfg plan url headers i) s fun r s' =>
      r = .ok found ∧ s' = s := by
  unfold slice
  split
  · refine .bind (M := fun r s' => r = .ok () ∧ s' = s) ?_ fun r s₁ h => ?_
    · refine .perform_bind (hreliable.enabled rfl) fun choice resident s₁ hexec => ?_
      obtain ⟨rfl, rfl⟩ := hreliable.exec_storeContains hexec
      rw [hfound]
      exact .ret ⟨rfl, rfl⟩
    · obtain ⟨rfl, rfl⟩ := h
      refine .perform_bind (hreliable.enabled rfl) fun choice answer s₂ hexec => ?_
      obtain ⟨rfl, rfl⟩ := hreliable.exec_storeGet hexec
      rw [hfound]
      exact .ret ⟨rfl, rfl⟩
  · refine .bind (M := fun r s' => r = .ok found ∧ s' = s) ?_ fun r s₁ h => ?_
    · refine .perform_bind (hreliable.enabled (by simp [exec, hfound, Shared.settle]))
        fun choice entry s₁ hexec => ?_
      obtain ⟨rfl, rfl⟩ := hreliable.exec_storeEnter hfound hexec
      exact .ret ⟨rfl, rfl⟩
    · obtain ⟨rfl, rfl⟩ := h
      exact .ret ⟨rfl, rfl⟩

theorem sure_runOn (hreliable : Reliable ok) (headers : HeaderMap) {wanted : List ℕ}
    (hresident : ∀ i ∈ wanted, s.store (plan.sliceKey i) = some (value i)) :
    Sure (restrict ok exec) (runOn cfg plan url headers wanted) s fun _ s' => s' = s := by
  induction wanted with
  | nil => exact .ret rfl
  | cons i rest ih =>
      refine (sure_slice hreliable headers (hresident i List.mem_cons_self)).bind
        fun r s₁ h => ?_
      rw [h.2]
      exact ih fun j hj => hresident j (List.mem_cons_of_mem i hj)

theorem sure_sendSlices (hreliable : Reliable ok) (headers : HeaderMap) {wanted : List ℕ}
    (hresident : ∀ i ∈ wanted, s.store (plan.sliceKey i) = some (value i)) :
    Sure (restrict ok exec) (sendSlices cfg plan url headers wanted) s fun body s' =>
      body = Body.ofSlices cfg plan url value wanted ∧ s' = s := by
  induction wanted with
  | nil => exact .ret ⟨rfl, rfl⟩
  | cons i rest ih =>
      rw [sendSlices, Body.ofSlices]
      refine (sure_slice hreliable headers (hresident i List.mem_cons_self)).bind
        fun r s₁ h => ?_
      obtain ⟨rfl, rfl⟩ := h
      dsimp only
      cases piece cfg plan url i (value i) with
      | error e =>
          refine (sure_runOn hreliable headers fun j hj =>
            hresident j (List.mem_cons_of_mem i (List.mem_of_mem_take hj))).bind fun _ s₁ h => ?_
          exact .ret ⟨rfl, h⟩
      | ok bytes =>
          refine (ih fun j hj => hresident j (List.mem_cons_of_mem i hj)).bind
            fun body s₁ h => .ret ?_
          obtain ⟨rfl, rfl⟩ := h
          exact ⟨rfl, rfl⟩

theorem sure_respond (hreliable : Reliable ok) (hostname : String) (forwarded : HeaderMap)
    (isHead : Bool)
    (hresident : ∀ i ∈ indices cfg plan, s.store (plan.sliceKey i) = some (value i)) :
    Sure (restrict ok exec) (respond cfg hostname plan url forwarded isHead) s
      fun response _ => response = storedResponse cfg hostname plan url value isHead := by
  unfold respond storedResponse
  split
  · exact .ret rfl
  · refine (sure_sendSlices hreliable forwarded hresident).bind fun body s₁ h => .ret ?_
    rw [h.1]

/-- What is sent depends on the bytes a plan is for, and on nothing else in it. -/
theorem Body.ofSlices_congr {plan' : Plan} (hwanted : plan'.wanted = plan.wanted)
    (wanted : List ℕ) :
    Body.ofSlices cfg plan' url value wanted = Body.ofSlices cfg plan url value wanted := by
  have hpiece : piece cfg plan' url = piece cfg plan url := by
    funext i found
    simp only [piece, Plan.window, hwanted]
  induction wanted with
  | nil => rfl
  | cons i rest ih => simp only [Body.ofSlices, hpiece, ih]

/-- No response shows when its object was last seen. -/
theorem storedResponse_touched (hostname : String) (key : CacheKey) (info : ObjectMeta)
    (seen : ℕ) (rawRange : Option String) (wanted : ByteRange)
    (store : SliceKey → Option SliceValue) (isHead : Bool) :
    storedResponse cfg hostname
        (storedPlan cfg key { info with lastSeen := seen } rawRange wanted store) url value isHead =
      storedResponse cfg hostname (storedPlan cfg key info rawRange wanted store) url value
        isHead := by
  have hbody := @Body.ofSlices_congr cfg (storedPlan cfg key info rawRange wanted store) url value
    (storedPlan cfg key { info with lastSeen := seen } rawRange wanted store) rfl
  unfold storedResponse
  rw [hbody]
  rfl

/-- The slices of a plan for the object are among them. -/
theorem AllResident.of_mem {key : CacheKey} {info : ObjectMeta} {rawRange : Option String}
    {wanted : ByteRange} {store : SliceKey → Option SliceValue}
    (hresident : AllResident cfg (cfg.objectId key) info value s.store)
    (hwanted : wantedRange (requestedSpec rawRange) info.totalLen = .ok wanted) {i : ℕ}
    (hi : i ∈ indices cfg (storedPlan cfg key info rawRange wanted store)) :
    s.store ((storedPlan cfg key info rawRange wanted store).sliceKey i) = some (value i) :=
  hresident i (mul_lt_of_mem_indices hwanted hi)

/-- **Answers from the store**: a known object whose slices are all there is answered from what
is known and what is stored. -/
theorem sure_serve (hreliable : Reliable ok) {key : CacheKey} {info : ObjectMeta}
    (hknows : Knows s (cfg.objectId key) info)
    (hresident : AllResident cfg (cfg.objectId key) info value s.store) (hostname : String)
    (forwarded : HeaderMap) (rawRange ifRange : Option String) (isHead : Bool) :
    Sure (restrict ok exec) (serve cfg hostname key url forwarded rawRange ifRange isHead) s
      fun result _ => result = .ok
        (storedAnswer cfg hostname key info url value s.store rawRange ifRange isHead) := by
  unfold serve storedAnswer
  refine (hreliable.sure_plan hknows url forwarded rawRange).bind fun result s₁ h => ?_
  obtain ⟨rfl, hstore, seen, hknows₁⟩ := h
  rw [← hstore] at hresident ⊢
  unfold Retaining.knownOutcome
  cases hwanted : wantedRange (requestedSpec rawRange) info.totalLen with
  | error e =>
      obtain rfl := wantedRange_error hwanted
      exact .ret rfl
  | ok wanted =>
      dsimp only
      split
      · -- the second plan sees the object touched
        refine (hreliable.sure_plan hknows₁ url forwarded none).bind fun result s₂ h => ?_
        obtain ⟨rfl, hstore₂, -⟩ := h
        have hresponse := @sure_respond ok cfg
          (storedPlan cfg key { info with lastSeen := seen } none (wholeWanted info.totalLen)
            s₁.store) url value s₂ hreliable hostname forwarded isHead fun i hi => by
              rw [hstore₂]
              exact @AllResident.of_mem cfg value s₁ key info none (wholeWanted info.totalLen)
                s₁.store hresident rfl i hi
        exact hresponse.bind fun response s₃ h =>
          .ret (congrArg Except.ok (h.trans (storedResponse_touched ..)))
      · exact (sure_respond hreliable hostname forwarded isHead fun i =>
          hresident.of_mem hwanted).bind fun response s₂ h => .ret (congrArg Except.ok h)

end Serving

/-! ## Two requests compared -/

section Compared

variable {cfg : Config} {hostname url : String} {key : CacheKey} {info : ObjectMeta}
  {value : ℕ → SliceValue} {store : SliceKey → Option SliceValue} {rawRange : Option String}
  {v : String} {isHead : Bool}

/-- The plan of a request for the whole object. -/
def wholePlan (cfg : Config) (key : CacheKey) (info : ObjectMeta)
    (store : SliceKey → Option SliceValue) : Plan :=
  storedPlan cfg key info none (wholeWanted info.totalLen) store

/-- A request without a range is answered with the whole object. -/
theorem storedAnswer_whole :
    storedAnswer cfg hostname key info url value store none none isHead =
      storedResponse cfg hostname (wholePlan cfg key info store) url value isHead := rfl

/-- A validator that matches leaves the answer as it is. -/
theorem storedAnswer_matching (hmatch : ifRangeMatches v info.validators = true) :
    storedAnswer cfg hostname key info url value store rawRange (some v) isHead =
      storedAnswer cfg hostname key info url value store rawRange none isHead := by
  unfold storedAnswer
  cases wantedRange (requestedSpec rawRange) info.totalLen with
  | error e => rfl
  | ok wanted => simp [ifRangeFails, storedPlan, knownPlan, hmatch]

/-- One that does not match takes back a range that selects something. -/
theorem storedAnswer_failing (hmatch : ifRangeMatches v info.validators = false)
    {wanted : ByteRange}
    (hwanted : wantedRange (requestedSpec rawRange) info.totalLen = .ok wanted) :
    storedAnswer cfg hostname key info url value store rawRange (some v) isHead =
      storedAnswer cfg hostname key info url value store none none isHead := by
  rw [storedAnswer_whole, storedAnswer, hwanted]
  simp [ifRangeFails, storedPlan, knownPlan, hmatch, wholePlan]

/-- A range that selects nothing is refused, whatever the validator. -/
theorem storedAnswer_refused {ifRange : Option String} {e : OrchestratorError}
    (hwanted : wantedRange (requestedSpec rawRange) info.totalLen = .error e) :
    storedAnswer cfg hostname key info url value store rawRange ifRange isHead =
      unsatisfiableResponse hostname info.totalLen := by
  rw [storedAnswer, hwanted]

theorem wholeWanted_of_pos {totalLen : ℕ} (hpos : totalLen > 0) :
    wholeWanted totalLen = { start := 0, stop := totalLen - 1 } := by
  rw [wholeWanted, whole, if_pos hpos, Option.getD_some]

/-- The announced length of a whole object. -/
theorem bodyLen_wholePlan (hword : info.totalLen < 2 ^ 64) :
    (wholePlan cfg key info store).bodyLen = info.totalLen := by
  unfold Plan.bodyLen
  split
  case isTrue hempty => exact hempty.symm
  case isFalse hempty =>
    have hpos : info.totalLen > 0 := Nat.pos_of_ne_zero hempty
    show (wholeWanted info.totalLen).len = info.totalLen
    rw [wholeWanted_of_pos hpos, ByteRange.len_eq (Nat.zero_le _) (by simp only; omega)]
    simp only
    omega

/-- Exact slices of the whole object are its content. -/
theorem body_wholePlan {content : List UInt8} (hlen : content.length = info.totalLen)
    (hcount : content.length ≤ 2 ^ 32 * cfg.sliceSize)
    (hexact : ∀ i, i * cfg.sliceSize < info.totalLen →
      (value i).payload = tile content cfg.sliceSize i) :
    (storedResponse cfg hostname (wholePlan cfg key info store) url value false).body =
      { sent := content, failure := none } := by
  have hword : info.totalLen < 2 ^ 64 := by
    have := Nat.mul_le_mul_left (2 ^ 32) cfg.sliceSize_valid.atMost
    omega
  simp only [storedResponse, bodyLen_wholePlan hword, Bool.false_or, decide_eq_true_eq]
  split
  case isTrue hempty =>
    rw [hempty] at hlen
    rw [List.length_eq_zero_iff.mp hlen]
    rfl
  case isFalse hempty =>
    have hpos : info.totalLen > 0 := Nat.pos_of_ne_zero hempty
    have hwhole : (wholePlan cfg key info store).wanted =
        { start := 0, stop := info.totalLen - 1 } := wholeWanted_of_pos hpos
    have hslices : ∀ i ∈ indices cfg (wholePlan cfg key info store),
        (value i).payload = tile content cfg.sliceSize i := fun i hi =>
      hexact i (@mul_lt_of_mem_indices cfg key info none _ _ i rfl hi)
    rw [Body.ofSlices_exact (show (wholePlan cfg key info store).totalLen = _ from hlen.symm) ?_
      hcount hslices]
    · rw [hwhole]
      simp [window, ← hlen, Nat.sub_add_cancel (show 1 ≤ content.length by omega)]
    · intro _
      rw [hwhole]
      exact ⟨Nat.zero_le _, Nat.sub_lt hpos Nat.one_pos⟩

end Compared

/-- **`If-Range` has its meaning.**  All slices of a known object are in the store.  A request
whose `If-Range` matches is answered as without it, and one whose `If-Range` does not match, as
without it and the range: the whole object.  In the second case the range has to be one that
selects something of the object. -/
theorem if_range_meaning {cfg : Config} {key : CacheKey} {info : ObjectMeta} {s : Shared}
    {value : ℕ → SliceValue} (hknows : Knows s (cfg.objectId key) info)
    (hresident : AllResident cfg (cfg.objectId key) info value s.store)
    {rawRange : Option String} {v : String}
    (hrange : ifRangeMatches v info.validators = true ∨
      ∃ wanted, wantedRange (requestedSpec rawRange) info.totalLen = .ok wanted)
    (hostname url : String) (forwarded forwarded' : HeaderMap) (isHead : Bool) :
    ∃ response,
      Sure (restrict Choice.serves exec)
        (serve cfg hostname key url forwarded rawRange (some v) isHead) s
        (fun result _ => result = .ok response) ∧
      Sure (restrict Choice.serves exec)
        (serve cfg hostname key url forwarded'
          (if ifRangeMatches v info.validators then rawRange else none) none isHead) s
        (fun result _ => result = .ok response) ∧
      (ifRangeMatches v info.validators = false →
        response.status = 200 ∧ response.headers.lookup "content-range" = none ∧
          (info.totalLen < 2 ^ 64 →
            response.headers.lookup "content-length" = some (toString info.totalLen)) ∧
          ∀ content : List UInt8, content.length = info.totalLen →
            content.length ≤ 2 ^ 32 * cfg.sliceSize →
            (∀ i, i * cfg.sliceSize < info.totalLen →
              (value i).payload = tile content cfg.sliceSize i) →
            isHead = false → response.body = { sent := content, failure := none }) := by
  have hserve := fun forwarded rawRange ifRange => @sure_serve Choice.serves cfg url value s
    reliable_serves key info hknows hresident hostname forwarded rawRange ifRange
    isHead
  refine ⟨_, hserve forwarded rawRange (some v), ?_⟩
  cases hmatch : ifRangeMatches v info.validators with
  | true =>
      rw [storedAnswer_matching hmatch]
      exact ⟨hserve forwarded' rawRange none, fun h => by cases h⟩
  | false =>
      obtain ⟨wanted, hwanted⟩ := hrange.resolve_left (by simp [hmatch])
      rw [storedAnswer_failing hmatch hwanted]
      refine ⟨hserve forwarded' none none, fun _ => ⟨rfl, ?_, fun hword => ?_, ?_⟩⟩
      · rw [storedAnswer_whole]
        exact lookup_contentRange _ hostname
      · rw [storedAnswer_whole, storedResponse, lookup_contentLength, bodyLen_wholePlan hword]
      · intro content hlen hcount hexact hget
        rw [storedAnswer_whole, hget]
        exact body_wholePlan hlen hcount hexact

namespace Scenario

/-- A process that has just started over a directory that knows a short object and holds it. -/
def heldStart (content : List UInt8) : Shared :=
  .boot (ObjectIndex.empty.put object (info "\"v1\"" content.length 0))
    (Function.update (fun _ => none) ⟨object, 0, 0⟩
      (some (stored "\"v1\"" content.length 0 content))) 0

theorem knows_heldStart (content : List UInt8) :
    Knows (heldStart content) object (info "\"v1\"" content.length 0) :=
  .inl ⟨ObjectIndex.get_put_self _ _ _, rfl⟩

theorem allResident_heldStart {content : List UInt8} (hlen : content.length ≤ 4096) :
    AllResident config object (info "\"v1\"" content.length 0)
      (fun _ => stored "\"v1\"" content.length 0 content) (heldStart content).store := by
  intro i hi
  have hfirst : i * 4096 < content.length := hi
  obtain rfl : i = 0 := by omega
  simp [heldStart, Shared.boot, info]

/-- A changed object is sent whole. -/
theorem if_range_meaning_changed :
    ∃ response,
      Sure (restrict Choice.serves exec)
        (serve config "cache" key url [] (some "bytes=0-1") (some "\"v0\"") false)
        (heldStart [1, 2, 3]) (fun result _ => result = .ok response) ∧
      Sure (restrict Choice.serves exec) (serve config "cache" key url [] none none false)
        (heldStart [1, 2, 3]) (fun result _ => result = .ok response) ∧
      response.status = 200 ∧ response.body = { sent := [1, 2, 3], failure := none } := by
  obtain ⟨response, hserve, hwhole, hmismatch⟩ := @if_range_meaning config key _ _ _
    (knows_heldStart [1, 2, 3]) (allResident_heldStart (by decide)) (some "bytes=0-1") "\"v0\""
    (.inr ⟨{ start := 0, stop := 1 }, by decide +kernel⟩) "cache" url [] [] false
  obtain ⟨hstatus, -, -, hbody⟩ := hmismatch (by decide)
  refine ⟨response, hserve, hwhole, hstatus, hbody [1, 2, 3] rfl (by decide) ?_ rfl⟩
  intro i hi
  have hfirst : i * 4096 < 3 := hi
  obtain rfl : i = 0 := by omega
  rfl

/-- A range behind the end of a changed object is refused, though the request is for the whole
object. -/
theorem if_range_unsatisfiable :
    Knows (heldStart [1]) object (info "\"v1\"" 1 0) ∧
      AllResident config object (info "\"v1\"" 1 0) (fun _ => stored "\"v1\"" 1 0 [1])
        (heldStart [1]).store ∧
      ifRangeMatches "\"v0\"" (info "\"v1\"" 1 0).validators = false ∧
      Sure (restrict Choice.serves exec)
        (serve config "cache" key url [] (some "bytes=5-") (some "\"v0\"") false)
        (heldStart [1]) (fun result _ => result = .ok (unsatisfiableResponse "cache" 1)) ∧
      Sure (restrict Choice.serves exec) (serve config "cache" key url [] none none false)
        (heldStart [1]) (fun result _ => ∃ response, result = .ok response ∧
          response.status = 200 ∧ response.body = { sent := [1], failure := none }) := by
  have hresident := @allResident_heldStart [1] (by decide)
  have hserve := fun rawRange ifRange => @sure_serve Choice.serves config url _ _
    reliable_serves key _ (knows_heldStart [1]) hresident "cache" [] rawRange
    ifRange false
  refine ⟨knows_heldStart [1], hresident, by decide, ?_, ?_⟩
  · refine (hserve (some "bytes=5-") (some "\"v0\"")).imp fun result _ h => ?_
    rw [h, @storedAnswer_refused _ _ _ _ _ _ _ _ _ _ (.unsatisfiable 1) (by decide +kernel)]
    rfl
  · refine (hserve none none).imp fun result _ h => ⟨_, h, rfl, ?_⟩
    decide +kernel

end Scenario

end Cachic
