import Cachic.Orchestrator.Cold
import Cachic.Orchestrator.Process

/-!
# The first request and the next

The first request for an object learns its length by fetching one slice, the one
that holds the first byte asked for.  Later requests read the length from the index
and resolve the range by arithmetic.  A client should not be able to tell which of
the two happened.

It can.  The probe asks for a slice that may lie behind the end of the object, and a
correct origin answers that with a 416, which the upstream client reports as a
failure.  An object without bytes has no slice at all.  `cold_agrees_iff` says
exactly when the two paths agree.
-/

namespace Cachic

open Range Tiling ActionLang

/-- What the outcome of planning decides about the answer: status, range and length,
or a 416 with the length, or a failure. -/
inductive PlanView
  | answer (status : ℕ) (wanted : ByteRange) (totalLen : ℕ)
  | unsatisfiable (totalLen : ℕ)
  | failed
  deriving DecidableEq, Repr

def planView : Except OrchestratorError Plan → PlanView
  | .ok plan => .answer plan.status plan.wanted plan.totalLen
  | .error (.unsatisfiable totalLen) => .unsatisfiable totalLen
  | .error _ => .failed

/-- What is decided for an object of a known length. -/
def viewOf (spec : Option RangeSpec) (totalLen : ℕ) : PlanView :=
  match wantedRange spec totalLen with
  | .ok wanted => .answer (if spec.isSome then 206 else 200) wanted totalLen
  | .error _ => .unsatisfiable totalLen

theorem viewOf_ne_failed (spec : Option RangeSpec) (totalLen : ℕ) :
    viewOf spec totalLen ≠ .failed := by
  unfold viewOf
  split
  · simp
  · simp

section

variable {choose : Act → Shared → Choice} {cfg : Config} {key : CacheKey} {url : String}
  {headers : HeaderMap} {rawRange : Option String} {s : Shared}

/-- Once there is metadata, its length decides. -/
theorem exists_plan_of_metadata {info : ObjectMeta} {probedHere : Bool} {s₁ : Shared}
    (hmetadata : (metadata cfg key (cfg.objectId key) url headers
      (probeIndexOf cfg (requestedSpec rawRange))).run exec choose s =
        some (.ok (info, probedHere), s₁)) :
    ∃ outcome s', (plan cfg key url headers rawRange).run exec choose s = some (outcome, s') ∧
      planView outcome = viewOf (requestedSpec rawRange) info.totalLen := by
  cases hwanted : wantedRange (requestedSpec rawRange) info.totalLen with
  | ok wanted =>
      obtain ⟨status, s', hrun, -⟩ := run_plan_of_metadata hmetadata hwanted
      refine ⟨_, s', hrun, ?_⟩
      simp only [planView, knownPlan, viewOf, hwanted]
  | error e =>
      obtain rfl := wantedRange_error hwanted
      refine ⟨_, s₁, run_plan_unresolved hmetadata hwanted, ?_⟩
      simp only [planView, viewOf, hwanted]

end

/-- **When the first request is answered like the next**: exactly when the slice it
probes with begins inside the object and is not longer than the client reads.  For
any content and any `Range` header, from any state in which the object is unknown
and any state in which the index has its length. -/
theorem cold_agrees_iff (cfg : Config) (key : CacheKey) (url : String) (headers : HeaderMap)
    (rawRange : Option String) {content : List UInt8} {cold warm : Shared} {info : ObjectMeta}
    {chooseCold chooseWarm : Act → Shared → Choice} {answers : Request → RawResponse → Prop}
    (hcold : Solo (fun request raw => ∃ validators,
      AnswersCorrectly content validators request raw) chooseCold)
    (hunknown : Unknown cold (cfg.objectId key)) (hwarm : Solo answers chooseWarm)
    (hindex : warm.index.get (cfg.objectId key) = some info) (hfresh : info.stale = false)
    (htotal : info.totalLen = content.length) :
    ∃ first next s₁ s₂,
      (plan cfg key url headers rawRange).run exec chooseCold cold = some (first, s₁) ∧
      (plan cfg key url headers rawRange).run exec chooseWarm warm = some (next, s₂) ∧
      (planView first = planView next ↔
        probeIndexOf cfg (requestedSpec rawRange) * cfg.sliceSize < content.length ∧
          (tile content cfg.sliceSize (probeIndexOf cfg (requestedSpec rawRange))).length ≤
            cfg.client.maxBodyBytes) := by
  have hcold : Solo (fun request raw => ∃ validators, True ∧
      AnswersCorrectly content validators request raw) chooseCold :=
    hcold.mono fun _ _ ⟨validators, hraw⟩ => ⟨validators, trivial, hraw⟩
  obtain ⟨index, -, hmetadata, -⟩ := hwarm.run_metadata (.inl ⟨hindex, hfresh⟩) cfg key url headers
    (probeIndexOf cfg (requestedSpec rawRange))
  obtain ⟨next, s₂, hnext, hview⟩ := exists_plan_of_metadata hmetadata
  rw [htotal] at hview
  by_cases hinside : probeIndexOf cfg (requestedSpec rawRange) * cfg.sliceSize < content.length ∧
      (tile content cfg.sliceSize (probeIndexOf cfg (requestedSpec rawRange))).length ≤
        cfg.client.maxBodyBytes
  · obtain ⟨info', s₁, hprobed, hlearnt, -⟩ := run_metadata_inside hcold hunknown key url headers
      (probeIndexOf_lt cfg _) hinside.1 hinside.2
    obtain ⟨first, s₁, hfirst, hview'⟩ := exists_plan_of_metadata hprobed
    refine ⟨first, next, s₁, s₂, hfirst, hnext, ?_⟩
    rw [hview, hview', hlearnt.total]
    exact iff_of_true rfl hinside
  · obtain ⟨e, hfailed⟩ := run_metadata_outside hcold hunknown key url headers hinside
    refine ⟨_, next, _, s₂, run_plan_of_error hfailed, hnext, ?_⟩
    rw [hview]
    exact iff_of_false (fun h => viewOf_ne_failed _ _ h.symm) hinside

namespace Scenario

/-- The fields of version 1. -/
def tagged : HeaderMap := [("etag", "\"v1\"")]

/-- A process that has just started over a directory whose index knows an object of
`n` bytes. -/
def indexed (n : ℕ) : Shared :=
  .boot (ObjectIndex.empty.put object (info "\"v1\"" n 0)) (fun _ => none) 0

theorem unknown_init : Unknown Shared.init object :=
  ⟨fun entry hentry => (by cases hentry), rfl⟩

/-- A range inside an object of three bytes. -/
theorem cold_agrees_iff_inside :
    ∃ first next s₁ s₂,
      (Cachic.plan config key url [] (some "bytes=1-")).run exec (correctWorld [1, 2, 3] tagged)
        Shared.init = some (first, s₁) ∧
      (Cachic.plan config key url [] (some "bytes=1-")).run exec (correctWorld [1, 2, 3] tagged)
        (indexed 3) = some (next, s₂) ∧
      planView first = planView next := by
  have hsolo := @correctWorld_solo [1, 2, 3] (by decide) tagged
  have hcold : Solo (fun request raw => ∃ validators,
      AnswersCorrectly [1, 2, 3] validators request raw) (correctWorld [1, 2, 3] tagged) :=
    hsolo.mono fun _ _ hraw => ⟨_, hraw⟩
  have hindex : (indexed 3).index.get object = some (info "\"v1\"" 3 0) :=
    ObjectIndex.get_put_self _ _ _
  obtain ⟨first, next, s₁, s₂, hfirst, hnext, hiff⟩ := cold_agrees_iff config key url []
    (some "bytes=1-") hcold unknown_init hsolo hindex rfl rfl
  exact ⟨first, next, s₁, s₂, hfirst, hnext, hiff.mpr (by decide +kernel)⟩

/-- The view of a plan made against a correct origin. -/
def viewFrom (content : List UInt8) (rawRange : Option String) (s : Shared) : Option PlanView :=
  ((Cachic.plan config key url [] rawRange).run exec (correctWorld content tagged) s).map fun r =>
    planView r.1

/-- A range behind the first slice of an object of one byte, and an object without
bytes: the first request fails, and the next one is answered. -/
theorem cold_differs :
    viewFrom [1] (some "bytes=4096-") Shared.init = some .failed ∧
      viewFrom [1] (some "bytes=4096-") (indexed 1) = some (.unsatisfiable 1) ∧
      viewFrom [] none Shared.init = some .failed ∧
      viewFrom [] none (indexed 0) = some (.answer 200 { start := 0, stop := 0 } 0) ∧
      Solo (AnswersCorrectly [1] (validatorsOf tagged)) (correctWorld [1] tagged) ∧
      Solo (AnswersCorrectly [] (validatorsOf tagged)) (correctWorld [] tagged) :=
  ⟨by decide +kernel, by decide +kernel, by decide +kernel, by decide +kernel,
    @correctWorld_solo [1] (by decide) tagged, @correctWorld_solo [] (by decide) tagged⟩

end Scenario

end Cachic
