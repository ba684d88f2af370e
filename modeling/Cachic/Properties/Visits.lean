import Cachic.Properties.RangedPath

/-!
# One request after another

Requests for one object that are made in sequence, each when the one before it is done,
each in a world of its own.  `Calm` is what such a sequence keeps: the slices that are
there are exact, and what is known about the object, if anything, is right.  A request
for an unknown object probes it first, and from there on goes the way of a request for
a known one.
-/

namespace Cachic

open Range Tiling ActionLang

/-- A GET of the object, and the world it runs in. -/
structure Visit where
  hostname : String
  key : CacheKey
  url : String
  forwarded : HeaderMap
  rawRange : Option String
  choose : Act → Shared → Choice

/-- One visit, alone. -/
def Visit.serve (cfg : Config) (visit : Visit) (s : Shared) :
    Option (Except OrchestratorError Response × Shared) :=
  (Cachic.serve cfg visit.hostname visit.key visit.url visit.forwarded visit.rawRange none
    false).run exec visit.choose s

/-- Visits made one after another, each when the one before it is done. -/
def serveAll (cfg : Config) :
    List Visit → Shared → Option (List (Except OrchestratorError Response) × Shared)
  | [], s => some ([], s)
  | visit :: rest, s =>
      (visit.serve cfg s).bind fun (result, s₁) =>
        (serveAll cfg rest s₁).map fun (results, s') => (result :: results, s')

/-- What each visit keeps and promises, a sequence of visits does. -/
theorem serveAll_induct {cfg : Config} {I : Shared → Prop}
    {Q : Visit → Except OrchestratorError Response → Prop} {visits : List Visit}
    (hvisit : ∀ visit ∈ visits, ∀ s, I s → ∃ result s', visit.serve cfg s = some (result, s') ∧
      Q visit result ∧ I s') {s : Shared} (hs : I s) :
    ∃ results s', serveAll cfg visits s = some (results, s') ∧ List.Forall₂ Q visits results ∧
      I s' := by
  induction visits generalizing s with
  | nil => exact ⟨[], s, rfl, .nil, hs⟩
  | cons visit rest ih =>
      obtain ⟨result, s₁, hserve, hresult, hs₁⟩ := hvisit visit List.mem_cons_self s hs
      obtain ⟨results, s', hrest, hresults, hs'⟩ :=
        ih (fun other hother => hvisit other (List.mem_cons_of_mem visit hother)) hs₁
      refine ⟨result :: results, s', ?_, .cons hresult hresults, hs'⟩
      simp only [serveAll, hserve, hrest, Option.bind_some, Option.map_some]

/-- A request that asks for some byte of the object. -/
def Satisfiable (content : List UInt8) (spec : Option RangeSpec) : Prop :=
  match spec with
  | none => content ≠ []
  | some spec => spec.select content ≠ []

/-- The slice that is probed begins inside the object. -/
theorem Satisfiable.probeIndex_lt {content : List UInt8} {spec : Option RangeSpec}
    (h : Satisfiable content spec) (cfg : Config) :
    probeIndexOf cfg spec * cfg.sliceSize < content.length := by
  -- a wrapped index is only further to the left
  have hwrap : ∀ start, start / cfg.sliceSize % 2 ^ 32 * cfg.sliceSize ≤ start := by
    intro start
    calc start / cfg.sliceSize % 2 ^ 32 * cfg.sliceSize
        ≤ start / cfg.sliceSize * cfg.sliceSize := Nat.mul_le_mul_right _ (Nat.mod_le _ _)
      _ ≤ start := Nat.div_mul_le_self _ _
  cases spec with
  | none => simpa [probeIndexOf] using List.length_pos_iff.mpr h
  | some spec =>
      have hlen : 0 < (spec.select content).length := List.length_pos_iff.mpr h
      cases spec with
      | fromTo start stop =>
          rw [RangeSpec.select, length_window] at hlen
          exact lt_of_le_of_lt (hwrap start) (by omega)
      | «from» start =>
          rw [RangeSpec.select, List.length_drop] at hlen
          exact lt_of_le_of_lt (hwrap start) (by omega)
      | suffix n =>
          rw [RangeSpec.select, List.length_drop] at hlen
          simp only [probeIndexOf, zero_mul]
          omega

/-- Metadata that describes the object, under validators that match its own. -/
structure Fits (content : List UInt8) (v : Validators) (generation : ℕ) (info : ObjectMeta) :
    Prop where
  generation : info.generation = generation
  validators : info.validators.matchesWith v = true
  total : info.totalLen = content.length
  ranges : info.noRanges = false

/-- A state between requests: those slices `among` the object's that are there are exact,
and what is known about the object, if anything, is right. -/
structure CalmOn (among : ℕ → Prop) (sliceSize : ℕ) (content : List UInt8) (v : Validators)
    (object : ObjectId) (generation : ℕ) (s : Shared) : Prop where
  resident : ResidentOn among sliceSize content object generation s
  known : (Unknown s object ∧ generationOf (s.index.get object) = generation) ∨
    ∃ info, Knows s object info ∧ Fits content v generation info

/-- All slices that are there are exact. -/
abbrev Calm (sliceSize : ℕ) (content : List UInt8) (v : Validators) (object : ObjectId)
    (generation : ℕ) (s : Shared) : Prop :=
  CalmOn (fun _ => True) sliceSize content v object generation s

/-- A process that has just started over an empty directory. -/
theorem calm_init (sliceSize : ℕ) (content : List UInt8) (v : Validators) (object : ObjectId) :
    Calm sliceSize content v object 0 Shared.init where
  resident := ⟨fun _ _ _ hvalue => (by cases hvalue), fun _ => rfl⟩
  known := .inl ⟨⟨fun _ hentry => (by cases hentry), rfl⟩, rfl⟩

section Calm

variable {cfg : Config} {content : List UInt8} {v : Validators} {object : ObjectId}
  {generation : ℕ} {visit : Visit} {s : Shared} {among : ℕ → Prop}

/-- What a visit needs from its world. -/
structure Visit.Fair (cfg : Config) (content : List UInt8) (v : Validators) (object : ObjectId)
    (visit : Visit) : Prop where
  object : cfg.objectId visit.key = object
  solo : Solo (AnswersCorrectly content v) visit.choose
  works : StoreWorks visit.choose

/-- What the object must be like for its slices to be addressed and read. -/
structure Sliceable (cfg : Config) (content : List UInt8) : Prop where
  nonempty : 0 < content.length
  addressable : content.length ≤ (2 ^ 32 - 1) * cfg.sliceSize
  ceiling : cfg.sliceSize ≤ cfg.client.maxBodyBytes

theorem Fits.servable {info : ObjectMeta} (hfits : Fits content v generation info)
    (hsliceable : Sliceable cfg content) (hfair : visit.Fair cfg content v object) (s₀ : Shared) :
    Servable among cfg visit.key info content visit.choose visit.url visit.forwarded fun s =>
      ResidentOn among cfg.sliceSize content (cfg.objectId visit.key) info.generation s ∧
        SameKnowledge s₀ s :=
  servable_of_resident
    (hfair.solo.mono fun _ _ hcorrect => hcorrect.inside hfits.validators)
    hfair.works hfits.ranges hfits.total hsliceable.nonempty hsliceable.addressable
    hsliceable.ceiling visit.key visit.url visit.forwarded s₀

/-- A visit to a known object. -/
theorem serve_known {info : ObjectMeta} (hsliceable : Sliceable cfg content)
    (hfair : visit.Fair cfg content v object)
    (hamong : ∀ i, Wanted cfg (requestedSpec visit.rawRange) content.length i → among i)
    (hresident : ResidentOn among cfg.sliceSize content object generation s)
    (hknows : Knows s object info) (hfits : Fits content v generation info) :
    ∃ response s', visit.serve cfg s = some (.ok response, s') ∧
      RightAnswer content (requestedSpec visit.rawRange) response ∧
      CalmOn among cfg.sliceSize content v object generation s' := by
  obtain rfl := hfair.object
  obtain ⟨index, seen, hmetadata, hknows₁, -⟩ := hfair.solo.run_metadata hknows cfg visit.key
    visit.url visit.forwarded (probeIndexOf cfg (requestedSpec visit.rawRange))
  obtain rfl := hfits.generation
  obtain ⟨response, s', hrun, hright, hresident', hsame⟩ :=
    (hfits.servable hsliceable hfair _).run_serve hamong hmetadata
      ⟨hresident.of_eq rfl rfl, .refl _⟩ visit.hostname
  refine ⟨response, s', hrun, hright, hresident', .inr ⟨_, hsame.knows hknows₁, ?_⟩⟩
  exact ⟨rfl, hfits.validators, hfits.total, hfits.ranges⟩

/-- A slice that was learnt is one more exact slice. -/
theorem ResidentOn.learnt {info : ObjectMeta} {index : ℕ} {s' : Shared}
    (h : ResidentOn among cfg.sliceSize content object info.generation s)
    (hlearnt : Learnt cfg.sliceSize content object index s info s') :
    ResidentOn among cfg.sliceSize content object info.generation s' := by
  obtain ⟨value, hvalue, hstore⟩ := hlearnt.stored
  exact h.stored hvalue hstore hlearnt.flightOf

/-- A visit to an unknown object: it is answered if it asks for some byte. -/
theorem serve_unknown (hself : v.matchesWith v = true) (hsliceable : Sliceable cfg content)
    (hfair : visit.Fair cfg content v object)
    (hamong : ∀ i, Wanted cfg (requestedSpec visit.rawRange) content.length i → among i)
    (hresident : ResidentOn among cfg.sliceSize content object generation s)
    (hunknown : Unknown s object)
    (hgeneration : generationOf (s.index.get object) = generation) :
    ∃ result s', visit.serve cfg s = some (result, s') ∧
      (Satisfiable content (requestedSpec visit.rawRange) → ∃ response, result = .ok response ∧
        RightAnswer content (requestedSpec visit.rawRange) response) ∧
      CalmOn among cfg.sliceSize content v object generation s' := by
  obtain rfl := hfair.object
  have hsolo : Solo (fun request raw => ∃ validators, validators = v ∧
      AnswersCorrectly content validators request raw) visit.choose :=
    hfair.solo.mono fun _ _ hraw => ⟨v, rfl, hraw⟩
  by_cases hinside : probeIndexOf cfg (requestedSpec visit.rawRange) * cfg.sliceSize <
      content.length
  · -- the probe learns what the object is, and the request goes on as if it were known
    have hceiling : (tile content cfg.sliceSize
        (probeIndexOf cfg (requestedSpec visit.rawRange))).length ≤ cfg.client.maxBodyBytes :=
      (length_tile_le _ _).trans hsliceable.ceiling
    obtain ⟨info, s₁, hmetadata, hlearnt, hvalidators⟩ := run_metadata_inside hsolo hunknown
      visit.key visit.url visit.forwarded (probeIndexOf_lt cfg _) hinside hceiling
    have hinfo : info.generation = generation := hlearnt.generation.trans hgeneration
    subst hinfo
    have hfits : Fits content v info.generation info :=
      ⟨rfl, by rw [hvalidators, hself], hlearnt.total, hlearnt.ranges⟩
    obtain ⟨response, s', hrun, hright, hresident', hsame⟩ :=
      (hfits.servable hsliceable hfair _).run_serve hamong hmetadata
        ⟨hresident.learnt hlearnt, .refl _⟩ visit.hostname
    exact ⟨.ok response, s', hrun, fun _ => ⟨response, rfl, hright⟩, hresident',
      .inr ⟨info, hsame.knows (.inl ⟨hlearnt.indexed, hlearnt.fresh⟩), hfits⟩⟩
  · obtain ⟨e, hmetadata⟩ := run_metadata_outside hsolo hunknown visit.key visit.url
      visit.forwarded fun h => hinside h.1
    refine ⟨.error (.upstream e), s.abandoned (cfg.objectId visit.key), ?_,
      fun hsat => absurd (hsat.probeIndex_lt cfg) hinside, hresident.of_eq rfl rfl,
      .inl ⟨hunknown.abandoned, hgeneration⟩⟩
    rw [Visit.serve, Cachic.serve, Prog.run_bind_of_eq exec (run_plan_of_error hmetadata)]
    rfl

/-- **One visit**: it is answered if it asks for some byte, and the state stays calm. -/
theorem CalmOn.serve (hself : v.matchesWith v = true) (hsliceable : Sliceable cfg content)
    (hfair : visit.Fair cfg content v object)
    (hamong : ∀ i, Wanted cfg (requestedSpec visit.rawRange) content.length i → among i)
    (hcalm : CalmOn among cfg.sliceSize content v object generation s) :
    ∃ result s', visit.serve cfg s = some (result, s') ∧
      (Satisfiable content (requestedSpec visit.rawRange) → ∃ response, result = .ok response ∧
        RightAnswer content (requestedSpec visit.rawRange) response) ∧
      CalmOn among cfg.sliceSize content v object generation s' := by
  rcases hcalm.known with ⟨hunknown, hgeneration⟩ | ⟨info, hknows, hfits⟩
  · exact serve_unknown hself hsliceable hfair hamong hcalm.resident hunknown hgeneration
  · obtain ⟨response, s', hrun, hright, hcalm'⟩ :=
      serve_known hsliceable hfair hamong hcalm.resident hknows hfits
    exact ⟨.ok response, s', hrun, fun _ => ⟨response, rfl, hright⟩, hcalm'⟩

end Calm

namespace Scenario

/-- A request for the object, against an origin that has `content` and describes it by
the given fields. -/
def visit (content : List UInt8) (fields : HeaderMap) (rawRange : Option String) : Visit where
  hostname := "cache"
  key := key
  url := url
  forwarded := []
  rawRange := rawRange
  choose := correctWorld content fields

theorem correctWorld_works (content : List UInt8) (fields : HeaderMap) :
    StoreWorks (correctWorld content fields) := by
  intro a s text
  unfold correctWorld
  split <;> simp

theorem visit_fair {content : List UInt8} (hlen : content.length < 2 ^ 64) (fields : HeaderMap)
    (rawRange : Option String) :
    (visit content fields rawRange).Fair config content (validatorsOf fields) object where
  object := rfl
  solo := correctWorld_solo hlen fields
  works := correctWorld_works content fields

/-- The fields of a version with a strong `ETag`. -/
def strong : HeaderMap := [("etag", "\"v1\"")]

end Scenario

end Cachic
