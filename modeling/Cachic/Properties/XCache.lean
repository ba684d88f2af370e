import Cachic.Orchestrator.Retaining
import Cachic.Proxy.Server

/-!
# What `X-Cache` tells

`X-Cache` is written from a count of the slices a plan finds in the store.  An unknown object is
probed before they are counted, and the probe may have stored one of them.  So a request that
probed takes one off the count when the probed slice is among those of the plan.

`x_cache_iff` says when the header is true of the store as it was before the request.  A slice is
taken off whether or not the probe stored it, and whether or not it was there before; and a request
that is planned anew for its `If-Range` no longer knows that it probed.
-/

namespace Cachic

open Range ActionLang ActionLang.Prog

/-! ## The plan that is served -/

/-- `serve` up to the plan it answers with.  A request without one has its answer already. -/
def servedPlan (cfg : Config) (hostname : String) (key : CacheKey) (url : String)
    (forwarded : HeaderMap) (rawRange ifRange : Option String) :
    Task (Except (Except OrchestratorError Response) Plan) := do
  match ← plan cfg key url forwarded rawRange with
  | .error (.unsatisfiable totalLen) =>
      return .error (.ok (unsatisfiableResponse hostname totalLen))
  | .error e => return .error (.error e)
  | .ok first =>
      if ifRangeFails ifRange first then
        match ← plan cfg key url forwarded none with
        | .error e => return .error (.error e)
        | .ok second => return .ok second
      else return .ok first

theorem serve_eq_servedPlan (cfg : Config) (hostname : String) (key : CacheKey) (url : String)
    (forwarded : HeaderMap) (rawRange ifRange : Option String) (isHead : Bool) :
    serve cfg hostname key url forwarded rawRange ifRange isHead =
      (servedPlan cfg hostname key url forwarded rawRange ifRange >>= fun
        | .error answer => return answer
        | .ok served => do
            let response ← respond cfg hostname served url forwarded isHead
            return .ok response) := by
  simp only [serve, servedPlan, bind_assoc]
  congr 1
  funext planned
  rcases planned with e | first
  · cases e <;> rfl
  · by_cases hfails : ifRangeFails ifRange first = true
    · simp only [hfails, if_true, bind_assoc]
      congr 1
      funext again
      rcases again with e | second <;> rfl
    · simp only [hfails]
      rfl

section Served

variable {ok : Choice → Bool} {cfg : Config} {hostname url : String} {key : CacheKey}
  {forwarded : HeaderMap} {rawRange ifRange : Option String} {isHead : Bool} {s s' : Shared}
  {trace : List (Event Act Act.Res)} {served : Plan} {response : Response}

/-- A response is the answer to a plan: the run is the making of the plan and its sending. -/
def ServedFrom (cfg : Config) (hostname : String) (key : CacheKey) (url : String)
    (forwarded : HeaderMap) (rawRange ifRange : Option String) (isHead : Bool) (s : Shared)
    (trace : List (Event Act Act.Res)) (response : Response) (s' : Shared) (served : Plan) : Prop :=
  ∃ s₁ planning sending, trace = planning ++ sending ∧
    Runs (restrict Choice.keeps exec)
      (servedPlan cfg hostname key url forwarded rawRange ifRange) s planning (.ok served) s₁ ∧
    Runs (restrict Choice.keeps exec) (respond cfg hostname served url forwarded isHead) s₁ sending
      response s'

/-- The head of a response is that of its plan. -/
theorem headers_of_respond
    (hrun : Runs (restrict ok exec) (respond cfg hostname served url forwarded isHead) s trace
      response s') : response.headers = served.headers hostname := by
  unfold respond at hrun
  split at hrun
  · rw [hrun.eq_of_ret]
  · obtain ⟨body, s₁, _, _, -, -, hrest⟩ := runs_bind_iff.mp hrun
    rw [hrest.eq_of_ret]

/-- A response without a plan is a refusal. -/
theorem refused_of_runs
    (hrun : Runs (restrict ok exec) (servedPlan cfg hostname key url forwarded rawRange ifRange) s
      trace (.error (.ok response)) s') :
    ∃ totalLen, response = unsatisfiableResponse hostname totalLen := by
  obtain ⟨planned, s₁, _, _, -, -, hrest⟩ := runs_bind_iff.mp hrun
  rcases planned with e | first
  · cases e with
    | unsatisfiable totalLen =>
        cases hrest.eq_of_ret
        exact ⟨totalLen, rfl⟩
    | _ => cases hrest.eq_of_ret
  · dsimp only at hrest
    split at hrest
    · obtain ⟨again, s₂, _, _, -, -, hrest⟩ := runs_bind_iff.mp hrest
      cases again with
      | error e => cases hrest.eq_of_ret
      | ok second => cases hrest.eq_of_ret
    · cases hrest.eq_of_ret

/-- Every response is a refusal or the answer to a plan. -/
theorem refused_or_served
    (hrun : Runs (restrict Choice.keeps exec)
      (serve cfg hostname key url forwarded rawRange ifRange isHead) s trace (.ok response) s') :
    (∃ totalLen, response = unsatisfiableResponse hostname totalLen) ∨
      ∃ served, ServedFrom cfg hostname key url forwarded rawRange ifRange isHead s trace response
        s' served := by
  rw [serve_eq_servedPlan] at hrun
  obtain ⟨result, s₁, planning, sending, rfl, hplan, hrest⟩ := runs_bind_iff.mp hrun
  cases result with
  | error answer =>
      obtain rfl := hrest.eq_of_ret
      exact .inl (refused_of_runs hplan)
  | ok served =>
      obtain ⟨answer, s₂, tr₁, tr₂, rfl, hrespond, hrest⟩ := runs_bind_iff.mp hrest
      obtain ⟨rfl, h, rfl⟩ := runs_ret_iff.mp hrest
      cases h
      exact .inr ⟨served, s₁, planning, tr₁, by rw [List.append_nil], hplan, hrespond⟩

/-- How the status of a served plan was come by: `store` is the store its slices were counted
in. -/
structure CountedIn (cfg : Config) (s : Shared) (key : CacheKey) (rawRange ifRange : Option String)
    (served : Plan) (probed : Bool) (store : SliceKey → Option SliceValue) : Prop where
  total : served.totalLen = served.info.totalLen
  unknown : probed = true ↔ Unknown s (cfg.objectId key)
  same : (probed && !served.info.noRanges) = false → store = s.store
  stored : (probed && !served.info.noRanges) = true → ∃ value, store = Function.update s.store
    (served.sliceKey (probeIndexOf cfg (requestedSpec rawRange))) (some value)
  status : served.cacheStatus = statusOf cfg served.object served.info served.wanted
    (probed && !ifRangeFails ifRange served) (probeIndexOf cfg (requestedSpec rawRange)) store

theorem Retaining.countedIn_of_served (hretain : Retaining ok)
    (hrun : Runs (restrict ok exec) (servedPlan cfg hostname key url forwarded rawRange ifRange) s
      trace (.ok served) s') :
    ∃ probed store, CountedIn cfg s key rawRange ifRange served probed store := by
  obtain ⟨planned, s₁, _, _, -, hplan, hrest⟩ := runs_bind_iff.mp hrun
  rcases planned with e | first
  · cases e <;>
    · cases hrest.eq_of_ret
  · obtain ⟨info, probed, wanted, hinformed, hwanted, rfl⟩ := hretain.runs_plan hplan
    dsimp only at hrest
    split at hrest
    case isTrue hfails =>
      -- planned anew: the object is known by now, so the second plan does not probe
      obtain ⟨again, s₂, _, _, -, hagain, hrest⟩ := runs_bind_iff.mp hrest
      obtain ⟨seen, hknows⟩ := hinformed.knows
      obtain ⟨rfl, -, -⟩ := (hretain.sure_plan hknows url forwarded none).every hagain
      cases hrest.eq_of_ret
      -- the validators are the same, so the `If-Range` still fails
      have hstill : ifRangeFails ifRange (storedPlan cfg key { info with lastSeen := seen } none
          (wholeWanted info.totalLen) s₁.store) = true := hfails
      have hflag := congrArg (fun fails => probed && !fails) hstill
      rw [Bool.not_true, Bool.and_false] at hflag
      refine ⟨probed, s₁.store, rfl, hinformed.unknown, hinformed.same, hinformed.stored, ?_⟩
      exact congrArg (fun flag => statusOf cfg (cfg.objectId key) info (wholeWanted info.totalLen)
        flag (probeIndexOf cfg (requestedSpec rawRange)) s₁.store) hflag.symm
    case isFalse hfails =>
      cases hrest.eq_of_ret
      refine ⟨probed, s₁.store, rfl, hinformed.unknown, hinformed.same, hinformed.stored, ?_⟩
      rw [Bool.eq_false_iff.mpr hfails, Bool.not_false, Bool.and_true]
      rfl

end Served

/-! ## Counting -/

/-- A slice of a plan is in a store. -/
def Plan.has (plan : Plan) (store : SliceKey → Option SliceValue) (i : ℕ) : Bool :=
  (store (plan.sliceKey i)).isSome

theorem Plan.has_update_self (plan : Plan) (store : SliceKey → Option SliceValue) (i : ℕ)
    (value : SliceValue) :
    plan.has (Function.update store (plan.sliceKey i) (some value)) i = true := by
  rw [Plan.has, Function.update_self, Option.isSome_some]

theorem Plan.has_update_of_ne (plan : Plan) (store : SliceKey → Option SliceValue) {i j : ℕ}
    (hne : i ≠ j) (value : SliceValue) :
    plan.has (Function.update store (plan.sliceKey j) (some value)) i = plan.has store i := by
  rw [Plan.has, Function.update_of_ne fun heq => hne (congrArg SliceKey.index heq), Plan.has]

/-- One more slice in the store is one more that is counted, unless it was there. -/
theorem countP_update {store : SliceKey → Option SliceValue} {value : SliceValue} {plan : Plan}
    {p : ℕ} {wanted : List ℕ} (hwanted : wanted.Nodup) :
    wanted.countP (plan.has (Function.update store (plan.sliceKey p) (some value))) =
      wanted.countP (plan.has store) + if p ∈ wanted ∧ plan.has store p = false then 1 else 0 := by
  induction wanted with
  | nil => rfl
  | cons i rest ih =>
      obtain ⟨hi, hrest⟩ := List.nodup_cons.mp hwanted
      rw [List.countP_cons, List.countP_cons, ih hrest]
      by_cases hp : p = i
      · subst hp
        rw [plan.has_update_self]
        cases plan.has store p <;> simp [hi]
      · rw [plan.has_update_of_ne store (Ne.symm hp)]
        simp only [List.mem_cons, hp, false_or]
        omega

/-- The number of slices of a plan is counted in 32 bits. -/
theorem count_eq_length (r : ByteRange) (sliceSize : ℕ) :
    (Range.plan r sliceSize).count = (Range.plan r sliceSize).indices.length % 2 ^ 32 := by
  have hle : (Range.plan r sliceSize).first ≤ (Range.plan r sliceSize).last := le_max_right _ _
  have hlast : (Range.plan r sliceSize).last < 2 ^ 32 := by
    simp only [Range.plan]
    omega
  rw [SlicePlan.count, wrapSub_of_le hle hlast, wrapAdd, SlicePlan.indices, List.length_range']
  congr 1
  omega

theorem length_indices_le (r : ByteRange) (sliceSize : ℕ) :
    0 < (Range.plan r sliceSize).indices.length ∧
      (Range.plan r sliceSize).indices.length ≤ 2 ^ 32 := by
  simp only [SlicePlan.indices, List.length_range', Range.plan]
  generalize r.start / max sliceSize 1 = first
  generalize r.stop / max sliceSize 1 = last
  omega

/-- A status is true of `resident` slices among `total`. -/
def CacheStatus.TrueOf (status : CacheStatus) (resident total : ℕ) : Prop :=
  (status = .hit ↔ resident = total) ∧ (status = .miss ↔ resident = 0) ∧
    (status = .partialHit ↔ resident ≠ 0 ∧ resident ≠ total)

/-- A status from a count is true if the count is, as far as it can be told from none and all. -/
theorem trueOf_classify_iff {counted resident total : ℕ} (htotal : total ≠ 0) :
    (CacheStatus.classify counted total).TrueOf resident total ↔
      (counted = total ↔ resident = total) ∧ (counted = 0 ↔ resident = 0) := by
  unfold CacheStatus.TrueOf CacheStatus.classify
  by_cases hall : counted = total
  · simp only [hall, decide_true, Bool.or_true, if_true, true_iff, reduceCtorEq, false_iff]
    omega
  · by_cases hnone : counted = 0
    · simp only [htotal, hnone, decide_false, Bool.or_self, htotal.symm, Bool.false_eq_true,
        if_false, if_true, true_iff, reduceCtorEq, false_iff]
      omega
    · simp only [htotal, hall, hnone, decide_false, Bool.or_self, Bool.false_eq_true, if_false,
        true_iff, reduceCtorEq, false_iff]
      omega

/-- The status of a plan over a store, by its own slices. -/
theorem statusOf_eq {cfg : Config} {plan : Plan} {flag : Bool} {p : ℕ}
    {store : SliceKey → Option SliceValue} (htotal : plan.totalLen = plan.info.totalLen)
    (hlen : plan.totalLen ≠ 0) :
    statusOf cfg plan.object plan.info plan.wanted flag p store =
      CacheStatus.classify
        ((indices cfg plan).countP (plan.has store) % 2 ^ 32 -
          if flag = true ∧ p ∈ indices cfg plan then 1 else 0)
        ((indices cfg plan).length % 2 ^ 32) := by
  have hindices : indices cfg plan = (Range.plan plan.wanted cfg.sliceSize).indices := if_neg hlen
  have hinside : (flag && decide ((Range.plan plan.wanted cfg.sliceSize).first ≤ p) &&
      decide (p ≤ (Range.plan plan.wanted cfg.sliceSize).last)) = true ↔
        flag = true ∧ p ∈ indices cfg plan := by
    rw [hindices, SlicePlan.indices, List.mem_range'_1, Bool.and_eq_true, Bool.and_eq_true,
      decide_eq_true_eq, decide_eq_true_eq, and_assoc]
    exact and_congr_right fun _ => by omega
  unfold statusOf
  rw [if_neg (htotal ▸ hlen)]
  dsimp only
  rw [count_eq_length, ← hindices]
  congr 1
  by_cases hflag : flag = true ∧ p ∈ indices cfg plan
  · rw [if_pos hflag, if_pos (hinside.mpr hflag)]
    rfl
  · rw [if_neg hflag, if_neg (fun h => hflag (hinside.mp h))]
    rfl

/-- Where a count that was corrected for a probe tells none and all as the true one does.  `there`
says whether the probed slice was resident, `inside` whether it is one of those counted. -/
theorem accounts_iff {resident counted total : ℕ} {probed noRanges fails there : Bool}
    {inside : Prop} [Decidable inside]
    (hcounted : counted =
      resident + if (probed && !noRanges) = true ∧ inside ∧ there = false then 1 else 0)
    (hle : counted ≤ total) (hthere : inside → there = true → 0 < resident) :
    ((counted - (if (probed && !fails) = true ∧ inside then 1 else 0) = total ↔
          resident = total) ∧
        (counted - (if (probed && !fails) = true ∧ inside then 1 else 0) = 0 ↔ resident = 0)) ↔
      (probed = true → inside →
        if fails then
          noRanges = true ∨ there = true ∨ (1 ≤ resident ∧ resident + 1 < total)
        else
          (if noRanges then resident = 0 else there = false) ∨
            (2 ≤ resident ∧ resident < total)) := by
  by_cases hprobed : probed = true ∧ inside
  · obtain ⟨rfl, hinside⟩ := hprobed
    cases fails with
    | true =>
        cases noRanges <;> cases there <;> simp [hinside] at hcounted hthere ⊢ <;> omega
    | false =>
        cases noRanges <;> cases there <;> simp [hinside] at hcounted hthere ⊢ <;> omega
  · -- nothing was taken off, and nothing that counts was put in
    have hsame : counted = resident := by
      rw [hcounted, if_neg (by simp_all), Nat.add_zero]
    rw [if_neg (by simp_all), Nat.sub_zero, hsame]
    exact iff_of_true ⟨Iff.rfl, Iff.rfl⟩ fun h hinside => absurd ⟨h, hinside⟩ hprobed

/-! ## When the header is true -/

/-- The header is true of the store. -/
def TellsTruth (cfg : Config) (store : SliceKey → Option SliceValue) (served : Plan)
    (response : Response) : Prop :=
  (response.headers.lookup "x-cache" = some "HIT" ↔
    ∀ i ∈ indices cfg served, served.has store i = true) ∧
  (response.headers.lookup "x-cache" = some "MISS" ↔
    ∀ i ∈ indices cfg served, served.has store i = false) ∧
  (response.headers.lookup "x-cache" = some "PARTIAL" ↔
    (∃ i ∈ indices cfg served, served.has store i = true) ∧
      ∃ i ∈ indices cfg served, served.has store i = false)

theorem asStr_eq_iff (status told : CacheStatus) :
    some status.asStr = some told.asStr ↔ status = told := by
  cases status <;> cases told <;> simp [CacheStatus.asStr]

theorem tellsTruth_iff {cfg : Config} {hostname : String} {store : SliceKey → Option SliceValue}
    {served : Plan} {response : Response} (hheaders : response.headers = served.headers hostname) :
    TellsTruth cfg store served response ↔
      served.cacheStatus.TrueOf ((indices cfg served).countP (served.has store))
        (indices cfg served).length := by
  have hlookup : response.headers.lookup "x-cache" = some served.cacheStatus.asStr := by
    rw [hheaders]
    rfl
  have hnone : (indices cfg served).countP (served.has store) = 0 ↔
      ∀ i ∈ indices cfg served, served.has store i = false := by
    simp [List.countP_eq_zero]
  have hall : (indices cfg served).countP (served.has store) = (indices cfg served).length ↔
      ∀ i ∈ indices cfg served, served.has store i = true := List.countP_eq_length
  have hhit : some served.cacheStatus.asStr = some "HIT" ↔ served.cacheStatus = .hit :=
    asStr_eq_iff served.cacheStatus .hit
  have hmiss : some served.cacheStatus.asStr = some "MISS" ↔ served.cacheStatus = .miss :=
    asStr_eq_iff served.cacheStatus .miss
  have hpartial : some served.cacheStatus.asStr = some "PARTIAL" ↔
      served.cacheStatus = .partialHit := asStr_eq_iff served.cacheStatus .partialHit
  have hsome : (∃ i ∈ indices cfg served, served.has store i = true) ↔
      ¬ ∀ i ∈ indices cfg served, served.has store i = false := by
    simp
  have hmissing : (∃ i ∈ indices cfg served, served.has store i = false) ↔
      ¬ ∀ i ∈ indices cfg served, served.has store i = true := by
    simp
  rw [TellsTruth, CacheStatus.TrueOf, hlookup, hhit, hmiss, hpartial, hsome, hmissing, ← hnone,
    ← hall]

/-- The count of a request that probed comes out right, or comes to the same.

A request that was planned anew counts the slice its probe stored.  One that was not takes a
slice off, be the probed slice new or not; where ranges are ignored, the probe stored none. -/
def Accounted (cfg : Config) (s : Shared) (key : CacheKey) (rawRange ifRange : Option String)
    (served : Plan) : Prop :=
  let wanted := indices cfg served
  let probe := probeIndexOf cfg (requestedSpec rawRange)
  let resident := wanted.countP (served.has s.store)
  -- the number of slices is a 32-bit word, and one more than the largest is none
  if wanted.length = 2 ^ 32 then resident = wanted.length
  else
    Unknown s (cfg.objectId key) → probe ∈ wanted →
      if ifRangeFails ifRange served then
        served.info.noRanges = true ∨ served.has s.store probe = true ∨
          (1 ≤ resident ∧ resident + 1 < wanted.length)
      else
        (if served.info.noRanges then resident = 0 else served.has s.store probe = false) ∨
          (2 ≤ resident ∧ resident < wanted.length)

section Accounted

variable {cfg : Config} {s : Shared} {key : CacheKey} {rawRange ifRange : Option String}
  {served : Plan} {probed : Bool} {store : SliceKey → Option SliceValue}

theorem nodup_indices (cfg : Config) (plan : Plan) : (indices cfg plan).Nodup := by
  unfold indices
  split
  · exact List.nodup_nil
  · exact List.nodup_range'

/-- What is counted is what was there, and the slice the probe stored if it is new. -/
theorem CountedIn.countP_eq (hcounted : CountedIn cfg s key rawRange ifRange served probed store) :
    (indices cfg served).countP (served.has store) =
      (indices cfg served).countP (served.has s.store) +
        if (probed && !served.info.noRanges) = true ∧
          probeIndexOf cfg (requestedSpec rawRange) ∈ indices cfg served ∧
          served.has s.store (probeIndexOf cfg (requestedSpec rawRange)) = false
        then 1 else 0 := by
  cases hstored : probed && !served.info.noRanges with
  | false =>
      rw [hcounted.same hstored]
      simp
  | true =>
      obtain ⟨value, rfl⟩ := hcounted.stored hstored
      rw [countP_update (nodup_indices cfg served)]
      simp

/-- **The status is true** of the slices that were there exactly if the count comes out right. -/
theorem CountedIn.trueOf_iff (hcounted : CountedIn cfg s key rawRange ifRange served probed store)
    (hlen : served.totalLen ≠ 0) :
    served.cacheStatus.TrueOf ((indices cfg served).countP (served.has s.store))
        (indices cfg served).length ↔ Accounted cfg s key rawRange ifRange served := by
  have hbounds := length_indices_le served.wanted cfg.sliceSize
  rw [← show indices cfg served = _ from if_neg hlen] at hbounds
  have hcount := hcounted.countP_eq
  have hle : (indices cfg served).countP (served.has store) ≤ (indices cfg served).length :=
    List.countP_le_length
  have hresident : (indices cfg served).countP (served.has s.store) ≤
      (indices cfg served).length := List.countP_le_length
  have hthere : probeIndexOf cfg (requestedSpec rawRange) ∈ indices cfg served →
      served.has s.store (probeIndexOf cfg (requestedSpec rawRange)) = true →
        0 < (indices cfg served).countP (served.has s.store) :=
    fun hin hhas => List.countP_pos_iff.mpr ⟨_, hin, hhas⟩
  rw [hcounted.status, statusOf_eq hcounted.total hlen]
  unfold Accounted
  dsimp only
  by_cases hfull : (indices cfg served).length = 2 ^ 32
  · -- the number of slices has wrapped to none, which is a hit
    rw [if_pos hfull, hfull, Nat.mod_self]
    simp only [CacheStatus.TrueOf, CacheStatus.classify, decide_true, Bool.true_or, if_true,
      true_iff, reduceCtorEq, false_iff]
    omega
  · rw [if_neg hfull, Nat.mod_eq_of_lt (show (indices cfg served).length < 2 ^ 32 by omega),
      Nat.mod_eq_of_lt (show (indices cfg served).countP (served.has store) < 2 ^ 32 by omega),
      trueOf_classify_iff (by omega), ← hcounted.unknown]
    exact accounts_iff hcount hle hthere

end Accounted

/-- **When `X-Cache` tells the truth.**  Every response to a request that runs alone, over a store
that drops nothing meanwhile, is a refusal or the answer to a plan.  The header of such an answer
is true of the store as it was before the request exactly if the request's count is accounted
for; and then it is no hit over an empty store. -/
theorem x_cache_iff {cfg : Config} {hostname url : String} {key : CacheKey}
    {forwarded : HeaderMap} {rawRange ifRange : Option String} {isHead : Bool} {s s' : Shared}
    {trace : List (Event Act Act.Res)} {response : Response}
    (hrun : Runs (restrict Choice.keeps exec)
      (serve cfg hostname key url forwarded rawRange ifRange isHead) s trace (.ok response) s') :
    ((∃ totalLen, response = unsatisfiableResponse hostname totalLen) ∨
      ∃ served, ServedFrom cfg hostname key url forwarded rawRange ifRange isHead s trace response
        s' served) ∧
    ∀ served,
      ServedFrom cfg hostname key url forwarded rawRange ifRange isHead s trace response s' served →
      served.totalLen ≠ 0 →
      (TellsTruth cfg s.store served response ↔ Accounted cfg s key rawRange ifRange served) ∧
      (Accounted cfg s key rawRange ifRange served → (∀ slot, s.store slot = none) →
        response.headers.lookup "x-cache" ≠ some "HIT") := by
  refine ⟨refused_or_served hrun, ?_⟩
  rintro served ⟨s₁, planning, sending, -, hplan, hrespond⟩ hlen
  obtain ⟨probed, store, hcounted⟩ := retaining_keeps.countedIn_of_served hplan
  have htruth := (@tellsTruth_iff cfg hostname s.store served response
    (headers_of_respond hrespond)).trans (hcounted.trueOf_iff hlen)
  refine ⟨htruth, fun haccounted hempty hhit => ?_⟩
  have hsome : 0 < (indices cfg served).length := by
    rw [show indices cfg served = _ from if_neg hlen]
    exact (length_indices_le served.wanted cfg.sliceSize).1
  obtain ⟨i, hi⟩ := List.exists_mem_of_length_pos hsome
  have hthere := (htruth.mpr haccounted).1.mp hhit i hi
  rw [Plan.has, hempty] at hthere
  cases hthere

namespace Scenario

/-- Evaluate a request that runs alone, by its plan and its answer. -/
theorem exists_served (choose : Act → Shared → Choice) (s : Shared)
    (rawRange ifRange : Option String) (served : Plan) (P : Response → Prop) [DecidablePred P]
    (h : (((servedPlan config "cache" key url [] rawRange ifRange).run
        (restrict Choice.keeps exec) choose s).bind fun planned =>
          if planned.1 = .ok served then
            ((respond config "cache" served url [] false).run (restrict Choice.keeps exec) choose
              planned.2).map fun answered => decide (P answered.1)
          else none) = some true) :
    ∃ trace response s', P response ∧
      Runs (restrict Choice.keeps exec) (serve config "cache" key url [] rawRange ifRange false) s
        trace (.ok response) s' ∧
      ServedFrom config "cache" key url [] rawRange ifRange false s trace response s' served := by
  obtain ⟨⟨planned, s₁⟩, hplan, h⟩ := Option.bind_eq_some_iff.mp h
  split at h
  case isTrue hserved =>
    obtain rfl : planned = .ok served := hserved
    obtain ⟨⟨response, s'⟩, hrespond, hP⟩ := Option.map_eq_some_iff.mp h
    obtain ⟨planning, hplanning⟩ := runs_of_run hplan
    obtain ⟨sending, hsending⟩ := runs_of_run hrespond
    refine ⟨planning ++ sending, response, s', of_decide_eq_true hP, ?_,
      s₁, planning, sending, rfl, hplanning, hsending⟩
    rw [serve_eq_servedPlan]
    exact runs_bind_iff.mpr ⟨_, s₁, planning, sending, rfl, hplanning,
      runs_bind_iff.mpr ⟨_, s', sending, [], (List.append_nil _).symm, hsending, .ret _ _⟩⟩
  case isFalse => cases h

/-- The plan for a one-byte object, unless a range is asked for. -/
def wholeByte (status : CacheStatus) : Plan where
  service := "steam"
  status := 200
  wanted := { start := 0, stop := 0 }
  totalLen := 1
  cacheStatus := status
  info := info "\"v1\"" 1 0
  object := object
  isPartial := false

/-- An origin that has the one byte. -/
def oneByte : Act → Shared → Choice := steady (raw "\"v1\"" "bytes 0-0/1" [1])

/-- A directory that holds the byte and has no index entry for it. -/
def strayStart : Shared :=
  .boot .empty
    (Function.update (fun _ => none) ⟨object, 0, 0⟩ (some (stored "\"v1\"" 1 0 [1]))) 0

/-- A request for an object nothing is known of, and nothing is stored of. -/
theorem x_cache_iff_miss :
    ∃ trace response s',
      ServedFrom config "cache" key url [] (some "bytes=0-0") none false Shared.init trace response
        s' (Scenario.plan "\"v1\"" 1 0 0 0 .miss) ∧
      response.headers.lookup "x-cache" = some "MISS" ∧
      TellsTruth config Shared.init.store (Scenario.plan "\"v1\"" 1 0 0 0 .miss) response := by
  obtain ⟨trace, response, s', hmiss, hrun, hserved⟩ := exists_served oneByte Shared.init
    (some "bytes=0-0") none (Scenario.plan "\"v1\"" 1 0 0 0 .miss)
    (fun response => response.headers.lookup "x-cache" = some "MISS") (by decide +kernel)
  refine ⟨trace, response, s', hserved, hmiss,
    (((x_cache_iff hrun).2 _ hserved Nat.one_ne_zero).1).mpr ?_⟩
  unfold Accounted
  dsimp only
  rw [if_neg (by decide +kernel)]
  intro _ _
  exact .inl rfl

/-- Over an empty store, a request whose `If-Range` fails is told to have been a hit: its second
plan counts the slice its own probe stored.  And of an object whose index entry is gone, a slice
that is there is told to have been missed. -/
theorem x_cache_untrue :
    (∃ trace response s',
      Runs (restrict Choice.keeps exec)
        (serve config "cache" key url [] (some "bytes=0-0") (some "\"v0\"") false) Shared.init
        trace (.ok response) s' ∧
      ServedFrom config "cache" key url [] (some "bytes=0-0") (some "\"v0\"") false Shared.init
        trace response s' (wholeByte .hit) ∧
      (∀ slot, Shared.init.store slot = none) ∧
      response.headers.lookup "x-cache" = some "HIT") ∧
    ∃ trace response s',
      Runs (restrict Choice.keeps exec)
        (serve config "cache" key url [] (some "bytes=0-0") none false) strayStart trace
        (.ok response) s' ∧
      ServedFrom config "cache" key url [] (some "bytes=0-0") none false strayStart trace response
        s' (Scenario.plan "\"v1\"" 1 0 0 0 .miss) ∧
      (∀ i ∈ indices config (Scenario.plan "\"v1\"" 1 0 0 0 .miss),
        (Scenario.plan "\"v1\"" 1 0 0 0 .miss).has strayStart.store i = true) ∧
      response.headers.lookup "x-cache" = some "MISS" := by
  constructor
  · obtain ⟨trace, response, s', hhit, hrun, hserved⟩ := exists_served oneByte Shared.init
      (some "bytes=0-0") (some "\"v0\"") (wholeByte .hit)
      (fun response => response.headers.lookup "x-cache" = some "HIT") (by decide +kernel)
    exact ⟨trace, response, s', hrun, hserved, fun _ => rfl, hhit⟩
  · obtain ⟨trace, response, s', hmiss, hrun, hserved⟩ := exists_served oneByte strayStart
      (some "bytes=0-0") none (Scenario.plan "\"v1\"" 1 0 0 0 .miss)
      (fun response => response.headers.lookup "x-cache" = some "MISS") (by decide +kernel)
    exact ⟨trace, response, s', hrun, hserved, by decide +kernel, hmiss⟩

end Scenario

end Cachic
