import Cachic.Orchestrator.Cold

/-!
# A store that keeps what it has

`Retaining` rules out evictions.  What a request finds in the store is then what was there, and
`statusOf` is the cache status as a function of the store.

A request for an object whose metadata is at hand has settled answers, whatever the clock shows:
it plans from what is known and what is stored (`sure_plan`).  A request for an unknown object
probes, and the origin may answer anything; `runs_plan` is what any plan it comes to was made
from.  The probe stores a slice before the slices are counted.
-/

namespace Cachic

open Range ActionLang ActionLang.Prog

/-- Every choice but an eviction. -/
def Choice.keeps : Choice → Bool
  | .evicted => false
  | _ => true

/-- Every choice but an eviction or a failure of the store. -/
def Choice.serves : Choice → Bool
  | .evicted => false
  | .storeFails _ => false
  | _ => true

/-- Choices without evictions. -/
structure Retaining (ok : Choice → Bool) : Prop where
  go : ok .go = true
  time : ∀ t, ok (.time t) = true
  keeps : ok .evicted = false

/-- Choices without evictions and without failures of the store. -/
structure Reliable (ok : Choice → Bool) : Prop extends Retaining ok where
  works : ∀ text, ok (.storeFails text) = false

theorem retaining_keeps : Retaining Choice.keeps := ⟨rfl, fun _ => rfl, rfl⟩

theorem reliable_serves : Reliable Choice.serves := ⟨⟨rfl, fun _ => rfl, rfl⟩, fun _ => rfl⟩

/-- The cache status of a plan over a store. -/
def statusOf (cfg : Config) (object : ObjectId) (info : ObjectMeta) (wanted : ByteRange)
    (probedHere : Bool) (probeIndex : ℕ) (store : SliceKey → Option SliceValue) : CacheStatus :=
  if info.totalLen = 0 then .hit
  else
    let plan := Range.plan wanted cfg.sliceSize
    let resident := plan.indices.countP fun i => (store ⟨object, info.generation, i⟩).isSome
    let resident := resident % 2 ^ 32
    let resident :=
      if probedHere && plan.first ≤ probeIndex && probeIndex ≤ plan.last then resident - 1
      else resident
    CacheStatus.classify resident plan.count

/-- The bytes of a request without a range. -/
def wholeWanted (totalLen : ℕ) : ByteRange := (whole totalLen).getD { start := 0, stop := 0 }

/-- What is planned for a known object, over a store. -/
def storedPlan (cfg : Config) (key : CacheKey) (info : ObjectMeta) (rawRange : Option String)
    (wanted : ByteRange) (store : SliceKey → Option SliceValue) : Plan :=
  knownPlan cfg key info (requestedSpec rawRange) wanted
    (statusOf cfg (cfg.objectId key) info wanted false
      (probeIndexOf cfg (requestedSpec rawRange)) store)

/-- An object's metadata is at hand without asking: in the index, or in the object's
cell. -/
def AtHand (s : Shared) (object : ObjectId) (info : ObjectMeta) : Prop :=
  (s.index.get object = some info ∧ info.stale = false) ∨
    ((∀ entry ∈ s.index.get object, entry.stale = true) ∧
      s.cells (s.cellFor object) = .ready info)

theorem Knows.atHand {s : Shared} {object : ObjectId} {info : ObjectMeta}
    (hknows : Knows s object info) : AtHand s object info := by
  refine hknows.imp id fun ⟨hstale, cell, hcell, hready⟩ => ⟨hstale, ?_⟩
  rw [Shared.cellFor, hcell]
  exact hready

namespace Retaining

variable {ok : Choice → Bool} {s : Shared}

theorem settle_eq (hretain : Retaining ok) {choice : Choice} (hok : ok choice = true)
    (key : SliceKey) : s.settle key choice = s := by
  cases choice with
  | evicted =>
      rw [hretain.keeps] at hok
      cases hok
  | _ => rfl

/-- An action that any choice answers is answered. -/
theorem enabled (hretain : Retaining ok) {a : Act} (h : (exec a .go s).isSome) :
    ∃ choice, (restrict ok exec a choice s).isSome :=
  ⟨.go, by rw [restrict_of_ok hretain.go]; exact h⟩

theorem exec_storeContains (hretain : Retaining ok) {key : SliceKey} {choice : Choice} {r : Bool}
    {s₁ : Shared} (h : restrict ok exec (.storeContains key) choice s = some (r, s₁)) :
    r = (s.store key).isSome ∧ s₁ = s := by
  obtain ⟨hok, hexec⟩ := restrict_eq_some_iff.mp h
  have hsettle := hretain.settle_eq hok key (s := s)
  cases hexec
  rw [hsettle]
  exact ⟨rfl, rfl⟩

theorem sure_countResident (hretain : Retaining ok) (object : ObjectId) (generation : ℕ)
    (wanted : List ℕ) :
    Sure (restrict ok exec) (countResident object generation wanted) s fun n s' =>
      n = wanted.countP (fun i => (s.store ⟨object, generation, i⟩).isSome) ∧ s' = s := by
  induction wanted with
  | nil => exact .ret ⟨rfl, rfl⟩
  | cons i rest ih =>
      refine .perform_bind (hretain.enabled rfl) fun choice resident s₁ hexec => ?_
      obtain ⟨rfl, rfl⟩ := hretain.exec_storeContains hexec
      refine ih.bind fun others s₂ h => .ret ?_
      obtain ⟨rfl, rfl⟩ := h
      rw [List.countP_cons]
      split
      · exact ⟨rfl, rfl⟩
      · exact ⟨rfl, rfl⟩

theorem sure_classifyPlan (hretain : Retaining ok) (cfg : Config) (object : ObjectId)
    (info : ObjectMeta) (wanted : ByteRange) (probedHere : Bool) (probeIndex : ℕ) :
    Sure (restrict ok exec) (classifyPlan cfg object info wanted probedHere probeIndex) s
      fun status s' =>
        status = statusOf cfg object info wanted probedHere probeIndex s.store ∧ s' = s := by
  unfold classifyPlan statusOf
  split
  · exact .ret ⟨rfl, rfl⟩
  · refine (hretain.sure_countResident object info.generation _).bind fun n s₁ h => .ret ?_
    obtain ⟨rfl, rfl⟩ := h
    exact ⟨rfl, rfl⟩

/-! ## Known objects -/

theorem exec_now (hretain : Retaining ok) : ∃ choice, (restrict ok exec .now choice s).isSome :=
  ⟨.time 0, by rw [restrict_of_ok (hretain.time 0)]; rfl⟩

/-- Touching an object may renew its time stamp, and does nothing else. -/
theorem sure_touch (hretain : Retaining ok) {id : ObjectId} {info : ObjectMeta}
    (hentry : s.index.get id = some info) :
    Sure (restrict ok exec) (touch id) s fun _ s' => ∃ index seen,
      s' = { s with index := index } ∧ index.get id = some { info with lastSeen := seen } := by
  refine .perform_bind (hretain.enabled rfl) fun choice found s₁ hget => ?_
  cases (restrict_eq_some_iff.mp hget).2
  rw [hentry]
  refine .perform_bind hretain.exec_now fun choice now s₂ hnow => ?_
  obtain rfl := exec_now_eq (restrict_eq_some_iff.mp hnow).2
  split
  · exact .ret ⟨s₂.index, info.lastSeen, rfl, hentry⟩
  · refine .perform_bind (hretain.enabled rfl) fun choice old s₃ hput => ?_
    cases (restrict_eq_some_iff.mp hput).2
    exact .ret ⟨_, now, rfl, ObjectIndex.get_put_self _ _ _⟩

/-- A cell that is set is read. -/
theorem sure_coldMetadata (hretain : Retaining ok) {object : ObjectId} {info : ObjectMeta}
    (hready : s.cells (s.cellFor object) = .ready info) (cfg : Config) (key : CacheKey)
    (url : String) (headers : HeaderMap) (probeIndex : ℕ) :
    Sure (restrict ok exec) (coldMetadata cfg key object url headers probeIndex) s
      fun result s' => result = .ok (info, false) ∧
        s' = { s.entered object with cells := s.cells } := by
  refine .perform_bind (hretain.enabled (by rw [exec_cell]; rfl)) fun _ found s₁ hget => ?_
  have hexec := (restrict_eq_some_iff.mp hget).2
  rw [exec_cell, Option.some.injEq, Prod.mk.injEq] at hexec
  obtain ⟨rfl, rfl⟩ := hexec
  refine .perform_bind (hretain.enabled rfl) fun _ initialized s₁ hinit => ?_
  have hexec := (restrict_eq_some_iff.mp hinit).2
  simp only [exec, hready, Option.some.injEq, Prod.mk.injEq] at hexec
  obtain ⟨rfl, rfl⟩ := hexec
  refine .perform_bind (hretain.enabled (by simp [exec, hready])) fun _ entry s₁ henter => ?_
  have hexec := (restrict_eq_some_iff.mp henter).2
  simp only [exec, hready, Option.some.injEq, Prod.mk.injEq] at hexec
  obtain ⟨rfl, rfl⟩ := hexec
  exact .ret ⟨rfl, rfl⟩

/-- Metadata that is at hand is returned without a probe, and is known then. -/
theorem sure_metadata (hretain : Retaining ok) {object : ObjectId} {info : ObjectMeta}
    (hhand : AtHand s object info) (cfg : Config) (key : CacheKey) (url : String)
    (headers : HeaderMap) (probeIndex : ℕ) :
    Sure (restrict ok exec) (metadata cfg key object url headers probeIndex) s fun result s' =>
      result = .ok (info, false) ∧ s'.store = s.store ∧
        ∃ seen, Knows s' object { info with lastSeen := seen } := by
  refine .perform_bind (hretain.enabled rfl) fun choice found s₁ hget => ?_
  cases (restrict_eq_some_iff.mp hget).2
  rcases hhand with ⟨hindex, hfresh⟩ | ⟨hstale, hready⟩
  · have hcurrent : (!info.stale) = true := by
      rw [hfresh]
      rfl
    rw [hindex]
    simp only [hcurrent, if_true]
    refine (hretain.sure_touch hindex).bind fun written s₂ h => .ret ?_
    obtain ⟨index, seen, rfl, hseen⟩ := h
    exact ⟨rfl, rfl, seen, .inl ⟨hseen, hfresh⟩⟩
  · have hcold := (hretain.sure_coldMetadata hready cfg key url headers probeIndex).imp
      fun result s' (h : _ ∧ _) => show result = .ok (info, false) ∧ s'.store = s.store ∧
        ∃ seen, Knows s' object { info with lastSeen := seen } by
          obtain ⟨rfl, rfl⟩ := h
          exact ⟨rfl, rfl, info.lastSeen,
            .inr ⟨hstale, s.cellFor object, Function.update_self _ _ _, hready⟩⟩
    cases hentry : s.index.get object with
    | none => exact hcold
    | some entry =>
        simp only [hstale entry hentry, Bool.not_true, Bool.false_eq_true, if_false]
        exact hcold

/-- The outcome of planning for a known object. -/
def knownOutcome (cfg : Config) (key : CacheKey) (info : ObjectMeta) (rawRange : Option String)
    (store : SliceKey → Option SliceValue) : Except OrchestratorError Plan :=
  match wantedRange (requestedSpec rawRange) info.totalLen with
  | .error e => .error e
  | .ok wanted => .ok (storedPlan cfg key info rawRange wanted store)

/-- **A plan for a known object** is made from what is known and what is stored. -/
theorem sure_plan (hretain : Retaining ok) {key : CacheKey} {cfg : Config} {info : ObjectMeta}
    (hknows : Knows s (cfg.objectId key) info) (url : String) (headers : HeaderMap)
    (rawRange : Option String) :
    Sure (restrict ok exec) (plan cfg key url headers rawRange) s fun result s' =>
      result = knownOutcome cfg key info rawRange s.store ∧ s'.store = s.store ∧
        ∃ seen, Knows s' (cfg.objectId key) { info with lastSeen := seen } := by
  unfold plan knownOutcome
  refine (hretain.sure_metadata hknows.atHand cfg key url headers _).bind fun result s₁ h => ?_
  obtain ⟨rfl, hstore, hknows₁⟩ := h
  dsimp only
  cases wantedRange (requestedSpec rawRange) info.totalLen with
  | error e => exact .ret ⟨rfl, hstore, hknows₁⟩
  | ok wanted =>
      refine (hretain.sure_classifyPlan cfg (cfg.objectId key) info wanted false _).bind
        fun status s₂ h => .ret ?_
      obtain ⟨rfl, rfl⟩ := h
      exact ⟨by rw [hstore]; rfl, hstore, hknows₁⟩

end Retaining

/-! ## A store that does not fail -/

namespace Reliable

variable {ok : Choice → Bool} {s : Shared} {key : SliceKey} {choice : Choice} {s₁ : Shared}

/-- It returns what it has. -/
theorem exec_storeGet (hreliable : Reliable ok) {r : Except StoreError (Option SliceValue)}
    (h : restrict ok exec (.storeGet key) choice s = some (r, s₁)) :
    r = .ok (s.store key) ∧ s₁ = s := by
  obtain ⟨hok, hexec⟩ := restrict_eq_some_iff.mp h
  cases choice with
  | storeFails text =>
      rw [hreliable.works text] at hok
      cases hok
  | evicted =>
      rw [hreliable.keeps] at hok
      cases hok
  | _ =>
      cases hexec
      exact ⟨rfl, rfl⟩

/-- A slice that is there is a hit. -/
theorem exec_storeEnter (hreliable : Reliable ok) {found : SliceValue}
    (hfound : s.store key = some found) {r : StoreEntry}
    (h : restrict ok exec (.storeEnter key) choice s = some (r, s₁)) :
    r = .hit found ∧ s₁ = s := by
  obtain ⟨hok, hexec⟩ := restrict_eq_some_iff.mp h
  cases choice with
  | storeFails text =>
      rw [hreliable.works text] at hok
      cases hok
  | evicted =>
      rw [hreliable.keeps] at hok
      cases hok
  | _ =>
      simp only [exec, Shared.settle, hfound, Option.some.injEq, Prod.mk.injEq] at hexec
      exact ⟨hexec.1.symm, hexec.2.symm⟩

end Reliable

/-! ## Unknown objects -/

section Learning

variable {ok : Choice → Bool} {cfg : Config} {key : CacheKey} {object : ObjectId} {url : String}
  {headers : HeaderMap} {index : ℕ} {s s' : Shared} {trace : List (Event Act Act.Res)}
  {info : ObjectMeta} {probed : Bool}

/-- A probe writes the index entry it returns, and stores its slice if ranges work. -/
theorem written_of_probe
    (hrun : Runs exec (probe cfg key object url headers index) s trace (.ok info) s') :
    s'.index.get object = some info ∧ info.stale = false ∧
      (info.noRanges = true → s'.store = s.store) ∧
      (info.noRanges = false → ∃ value,
        s'.store = Function.update s.store ⟨object, info.generation, index⟩ (some value)) := by
  obtain ⟨fetched, asked, written, -, -, -, hlearn⟩ := runs_probe hrun
  split at hlearn
  case h_1 e _ => cases hlearn.1
  case h_2 probed hprobed =>
    obtain ⟨now, h, rfl⟩ := hlearn
    cases h
    refine ⟨ObjectIndex.get_put_self _ _ _, rfl, fun hignored => ?_, fun hranges => ?_⟩
    · rw [Shared.afterProbe, if_pos (show probed.noRanges = true from hignored)]
    · have hworks : probed.noRanges = false := hranges
      rw [Shared.afterProbe, if_neg (Bool.eq_false_iff.mp hworks), ← index_of_learn hprobed]
      exact ⟨_, rfl⟩

/-- A request has learnt an object's metadata, and probed for it if it was unknown. -/
structure Informed (s : Shared) (object : ObjectId) (index : ℕ) (info : ObjectMeta) (probed : Bool)
    (s' : Shared) : Prop where
  knows : ∃ seen, Knows s' object { info with lastSeen := seen }
  unknown : probed = true ↔ Unknown s object
  same : (probed && !info.noRanges) = false → s'.store = s.store
  stored : (probed && !info.noRanges) = true → ∃ value,
    s'.store = Function.update s.store ⟨object, info.generation, index⟩ (some value)

/-- What is at hand is learnt without a probe. -/
theorem AtHand.informed (hhand : AtHand s object info) (hstore : s'.store = s.store)
    (hknows : ∃ seen, Knows s' object { info with lastSeen := seen }) :
    Informed s object index info false s' where
  knows := hknows
  unknown := by
    refine ⟨fun h => absurd h Bool.false_ne_true, fun hunknown => ?_⟩
    rcases hhand with ⟨hindex, hfresh⟩ | ⟨-, hready⟩
    · rw [hunknown.stale info hindex] at hfresh
      cases hfresh
    · rw [hunknown.cell] at hready
      cases hready
  same := fun _ => hstore
  stored := fun h => by cases h

/-- An unknown object is learnt by a probe. -/
theorem runs_coldMetadata_unknown (hunknown : Unknown s object)
    (hrun : Runs exec (coldMetadata cfg key object url headers index) s trace (.ok (info, probed))
      s') : Informed s object index info probed s' := by
  obtain ⟨_, cell, s₁, _, hcell, -, hrest⟩ := runs_perform_bind_iff.mp hrun
  rw [exec_cell, Option.some.injEq, Prod.mk.injEq] at hcell
  obtain ⟨rfl, rfl⟩ := hcell
  obtain ⟨_, initialized, s₁, _, hinit, -, hrest⟩ := runs_perform_bind_iff.mp hrest
  simp only [exec, hunknown.cell, Option.some.injEq, Prod.mk.injEq] at hinit
  obtain ⟨rfl, rfl⟩ := hinit
  obtain ⟨_, entry, s₁, _, henter, -, hrest⟩ := runs_perform_bind_iff.mp hrest
  simp only [exec, hunknown.cell, Option.some.injEq, Prod.mk.injEq] at henter
  obtain ⟨rfl, rfl⟩ := henter
  obtain ⟨result, s₂, _, _, -, hprobe, hrest⟩ := runs_bind_iff.mp hrest
  cases result with
  | error e =>
      obtain ⟨_, _, s₃, _, -, -, hrest⟩ := runs_perform_bind_iff.mp hrest
      cases hrest.eq_of_ret
  | ok learnt =>
      obtain ⟨hindex, hfresh, hsame, hstored⟩ := written_of_probe hprobe
      obtain ⟨_, _, s₃, _, hset, -, hrest⟩ := runs_perform_bind_iff.mp hrest
      cases hset
      obtain ⟨-, h, rfl⟩ := runs_ret_iff.mp hrest
      cases h
      exact
        { knows := ⟨info.lastSeen, .inl ⟨hindex, hfresh⟩⟩
          unknown := ⟨fun _ => hunknown, fun _ => rfl⟩
          same := fun h => hsame (by simpa using h)
          stored := fun h => hstored (by simpa using h) }

/-- A request waits while another one probes. -/
theorem not_runs_coldMetadata {result : Except OrchestratorError (ObjectMeta × Bool)}
    (hbusy : s.cells (s.cellFor object) = .busy) :
    ¬ Runs exec (coldMetadata cfg key object url headers index) s trace result s' := by
  intro hrun
  obtain ⟨_, cell, s₁, _, hget, -, hrest⟩ := runs_perform_bind_iff.mp hrun
  rw [exec_cell, Option.some.injEq, Prod.mk.injEq] at hget
  obtain ⟨rfl, rfl⟩ := hget
  obtain ⟨_, initialized, s₁, _, hinit, -, hrest⟩ := runs_perform_bind_iff.mp hrest
  cases hinit
  obtain ⟨_, entry, s₁, _, henter, -, hrest⟩ := runs_perform_bind_iff.mp hrest
  simp [exec, hbusy] at henter

/-- **What a request learns**: what is at hand, or what it probes for. -/
theorem Retaining.runs_metadata (hretain : Retaining ok)
    (hrun : Runs (restrict ok exec) (metadata cfg key object url headers index) s trace
      (.ok (info, probed)) s') : Informed s object index info probed s' := by
  have hfound : ∀ {found : ObjectMeta}, AtHand s object found →
      Informed s object index info probed s' := by
    intro found hhand
    obtain ⟨h, hstore, hknows⟩ := (hretain.sure_metadata hhand cfg key url headers index).every hrun
    cases h
    exact hhand.informed hstore hknows
  by_cases hstale : ∀ entry ∈ s.index.get object, entry.stale = true
  · have hcold : Runs exec (coldMetadata cfg key object url headers index) s trace.tail
        (.ok (info, probed)) s' := by
      obtain ⟨_, entry, s₁, rest, hget, rfl, hrest⟩ := runs_perform_bind_iff.mp hrun.of_restrict
      cases hget
      cases hentry : s.index.get object with
      | none =>
          rw [hentry] at hrest
          exact hrest
      | some entry =>
          rw [hentry] at hrest
          simp only [hstale entry hentry, Bool.not_true, Bool.false_eq_true, if_false] at hrest
          exact hrest
    cases hcell : s.cells (s.cellFor object) with
    | empty => exact runs_coldMetadata_unknown ⟨hstale, hcell⟩ hcold
    | ready found => exact hfound (.inr ⟨hstale, hcell⟩)
    | busy => exact absurd hcold (not_runs_coldMetadata hcell)
  · simp only [not_forall] at hstale
    obtain ⟨entry, hentry, hfresh⟩ := hstale
    exact hfound (.inl ⟨hentry, Bool.eq_false_iff.mpr hfresh⟩)

/-- **A plan** is made from what was learnt and what is stored then. -/
theorem Retaining.runs_plan (hretain : Retaining ok) {rawRange : Option String} {chosen : Plan}
    (hrun : Runs (restrict ok exec) (plan cfg key url headers rawRange) s trace (.ok chosen) s') :
    ∃ info probed wanted,
      Informed s (cfg.objectId key) (probeIndexOf cfg (requestedSpec rawRange)) info probed s' ∧
      wantedRange (requestedSpec rawRange) info.totalLen = .ok wanted ∧
      chosen = knownPlan cfg key info (requestedSpec rawRange) wanted
        (statusOf cfg (cfg.objectId key) info wanted probed
          (probeIndexOf cfg (requestedSpec rawRange)) s'.store) := by
  obtain ⟨result, s₁, _, _, -, hmetadata, hrest⟩ := runs_bind_iff.mp hrun
  rcases result with e | ⟨info, probed⟩
  · cases hrest.eq_of_ret
  · have hinformed := hretain.runs_metadata hmetadata
    dsimp only at hrest
    cases hwanted : wantedRange (requestedSpec rawRange) info.totalLen with
    | error e =>
        rw [hwanted] at hrest
        cases hrest.eq_of_ret
    | ok wanted =>
        rw [hwanted] at hrest
        obtain ⟨status, s₂, _, _, -, hclassify, hrest⟩ := runs_bind_iff.mp hrest
        obtain ⟨rfl, rfl⟩ := (hretain.sure_classifyPlan cfg (cfg.objectId key) info wanted probed
          (probeIndexOf cfg (requestedSpec rawRange))).every hclassify
        obtain ⟨-, h, rfl⟩ := runs_ret_iff.mp hrest
        cases h
        exact ⟨info, probed, wanted, hinformed, hwanted, rfl⟩

end Learning

end Cachic
