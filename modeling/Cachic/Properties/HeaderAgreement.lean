import Cachic.Orchestrator.Process

/-!
# The slice header and the plan

The index is documented as an acceleration structure that is never authoritative:
losing it costs a probe.  What a response is made of is then decided by the slices,
whose headers repeat the metadata they were stored under.  This file asks when the
header of a returned slice agrees with the plan it is returned for.

A stored slice is found by object, generation and index alone.  Its header and the
plan were both written by some probe that read the same generation, so they agree
when *those probes* agree (`slice_header_agrees`).  Nothing else makes them agree:
once an index entry is lost, the next probe starts over at generation 0, finds the
slices of whatever version was stored there, and serves them under its own
metadata (`slice_header_of_lost_entry`).
-/

namespace Cachic

open Range ActionLang

/-- What a stored slice says about its object was recorded by a probe that read
the slice's own generation. -/
theorem Provenance.recorded {h : Hist} {key : SliceKey} {value : SliceValue} {writer : Writer}
    (hp : Provenance h key value writer) :
    ∃ info, Recorded h key.object info ∧ info.generation = key.generation ∧
      value.header = headerFor info value.header.sliceSize := by
  cases hp with
  | @probe c now hc hjust hranges =>
      exact ⟨c.probed.info c.generation now, ⟨c, hc, hjust, rfl, now, now, rfl⟩, rfl, rfl⟩
  | fetch hrec hranges hvalid hindex hin ha hmatch hlen => exact ⟨_, hrec, rfl, rfl⟩
  | fill hrec hranges hvalid hs hin hwhole => exact ⟨_, hrec, rfl, rfl⟩

/-- The validators a probe saw. -/
def Commit.validators (c : Commit) : Validators := c.probed.response.validators

theorem Commit.Describes.validators {c : Commit} {info : ObjectMeta} (h : c.Describes info) :
    info.validators = c.validators := by
  obtain ⟨now, seen, rfl⟩ := h
  rfl

/-- Any two probes that read the same generation of an object, and in particular
each one with itself, saw the same length and matching validators. -/
def ProbesAgree (h : Hist) : Prop :=
  ∀ c₁ ∈ commits h, ∀ c₂ ∈ commits h, c₁.object = c₂.object → c₁.generation = c₂.generation →
    c₁.probed.totalLen = c₂.probed.totalLen ∧ c₁.validators.matchesWith c₂.validators = true

instance (h : Hist) : Decidable (ProbesAgree h) :=
  inferInstanceAs (Decidable (∀ c₁ ∈ commits h, ∀ c₂ ∈ commits h, _ → _ → _ ∧ _))

/-- Two metadata recorded for one generation agree when the probes do. -/
theorem ProbesAgree.recorded {h : Hist} (ha : ProbesAgree h) {object : ObjectId}
    {info₁ info₂ : ObjectMeta} (h₁ : Recorded h object info₁) (h₂ : Recorded h object info₂)
    (hgen : info₁.generation = info₂.generation) :
    info₁.totalLen = info₂.totalLen ∧ info₁.validators.matchesWith info₂.validators = true := by
  obtain ⟨c₁, hc₁, -, hobj₁, hdesc₁⟩ := h₁
  obtain ⟨c₂, hc₂, -, hobj₂, hdesc₂⟩ := h₂
  have hgen₁ : info₁.generation = c₁.generation ∧ info₁.totalLen = c₁.probed.totalLen := by
    obtain ⟨now, seen, rfl⟩ := hdesc₁
    exact ⟨rfl, rfl⟩
  have hgen₂ : info₂.generation = c₂.generation ∧ info₂.totalLen = c₂.probed.totalLen := by
    obtain ⟨now, seen, rfl⟩ := hdesc₂
    exact ⟨rfl, rfl⟩
  obtain ⟨hlen, hmatch⟩ := ha c₁ hc₁ c₂ hc₂ (hobj₁.trans hobj₂.symm)
    (by rw [← hgen₁.1, hgen, hgen₂.1])
  rw [hdesc₁.validators, hdesc₂.validators]
  exact ⟨by rw [hgen₁.2, hlen, hgen₂.2], hmatch⟩

/-- The header of a slice agrees with the metadata of the plan it was returned
for, at the running slice size. -/
structure HeaderAgrees (header : SliceHeader) (info : ObjectMeta) (sliceSize : ℕ) : Prop where
  totalLen : header.totalLen = info.totalLen
  generation : header.generation = info.generation
  sliceSize : header.sliceSize = sliceSize
  validators : header.validators.matchesWith info.validators = true

/-- **The slice wins, as long as probes that read one generation agree.**  In every
run, whatever index entries are lost and however tasks interleave, each slice
returned for a plan carries a header that agrees with the plan. -/
theorem slice_header_agrees {cfg : Config} {p : Process} {steps : List Process.Step}
    (hkeep : Process.Along Process.KeepsSize (Process.first cfg) steps)
    (hrun : (Process.first cfg).run steps = some p) (hagree : ProbesAgree p.pool.hist)
    {plan : Plan} {index : ℕ} {value : SliceValue}
    (hslice : Outcome.sliced plan index (.ok value) ∈ p.pool.results) :
    HeaderAgrees value.header plan.info p.cfg.sliceSize := by
  obtain ⟨hplan, hsize, writer, hprov⟩ := (Process.sound_run hkeep hrun).follows.pool.result hslice
  obtain ⟨info, hrec, hgen, hheader⟩ := hprov.recorded
  obtain ⟨hlen, hmatch⟩ := hagree.recorded hrec hplan.recorded hgen
  rw [hheader]
  exact ⟨hlen, hgen, hsize, hmatch⟩

namespace Scenario

open Process

/-- Slice 1 of version 1 is probed and stored. -/
def storeFirst : List Step :=
  coldRequest 0 "bytes=4096-" (reply "\"v1\"" "bytes 4096-4096/4097" [1]) 1

/-- It is then returned for a later plan of the same version. -/
def sameVersion : List Step :=
  storeFirst ++ warmRequest 1 "bytes=4096-" 1 ++
    fetch 2 (plan "\"v1\"" 4097 0 4096 4096 .hit) 1 [.go]

theorem slice_header_agrees_sameVersion :
    ∃ p, (first config).run sameVersion = some p ∧
      (ProbesAgree p.pool.hist ∧ Outcome.sliced (plan "\"v1\"" 4097 0 4096 4096 .hit) 1
        (.ok (stored "\"v1\"" 4097 0 [1])) ∈ p.pool.results) ∧
      HeaderAgrees (stored "\"v1\"" 4097 0 [1]).header (info "\"v1\"" 4097 0) p.cfg.sliceSize := by
  obtain ⟨p, hrun, hagree, hslice⟩ := exists_run (first config) sameVersion
    (fun p => ProbesAgree p.pool.hist ∧ Outcome.sliced (plan "\"v1\"" 4097 0 4096 4096 .hit) 1
        (.ok (stored "\"v1\"" 4097 0 [1])) ∈ p.pool.results) (by decide +kernel)
  exact ⟨p, hrun, ⟨hagree, hslice⟩,
    slice_header_agrees (along_keepsSize (by decide)) hrun hagree hslice⟩

/-- Instead, the index entry is lost with a restart.  The next request finds
version 2, which starts over at generation 0; a request that wants slices 1 and 2
is planned from it. -/
def lostEntry : List Step :=
  storeFirst ++ [.lose [object],
      .restart config false [(⟨object, 0, 1⟩, stored "\"v1\"" 4097 0 [1])]] ++
    coldRequest 0 "bytes=8192-" (reply "\"v2\"" "bytes 8192-8192/8193" [2]) 1 ++
    warmRequest 1 "bytes=4096-" 2 ++ fetch 2 (plan "\"v2\"" 8193 0 4096 8192 .hit) 1 [.go]

/-- The slice of version 1 is returned for the plan of version 2. -/
theorem slice_header_of_lost_entry :
    ∃ p, (first config).run lostEntry = some p ∧
      Outcome.sliced (plan "\"v2\"" 8193 0 4096 8192 .hit) 1 (.ok (stored "\"v1\"" 4097 0 [1])) ∈
        p.pool.results ∧
      ¬ HeaderAgrees (stored "\"v1\"" 4097 0 [1]).header (info "\"v2\"" 8193 0)
        p.cfg.sliceSize := by
  obtain ⟨p, hrun, hslice⟩ := exists_run (first config) lostEntry
    (fun p => Outcome.sliced (plan "\"v2\"" 8193 0 4096 8192 .hit) 1
        (.ok (stored "\"v1\"" 4097 0 [1])) ∈ p.pool.results) (by decide +kernel)
  refine ⟨p, hrun, hslice, fun hagree => ?_⟩
  have hlen : (4097 : ℕ) = 8193 := hagree.totalLen
  omega

end Scenario

end Cachic
