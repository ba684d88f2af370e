import Cachic.Properties.Generations

/-!
# Lost updates of the index

`touch`, `invalidate` and the probe each read an entry in one transaction and write
it back in another.  Whatever another task wrote in between is overwritten, a
bumped generation included.

`invalidation_kept` says when it is not, for any number of these tasks and any
interleaving: each write replaces an entry of the generation it was computed from,
or, for an invalidation, of one generation more.  The generation an invalidation
returned is then never undercut.  `invalidation_lost` is a touch that undoes an
invalidation.
-/

namespace Cachic

open Range ActionLang

/-- The generation a write carries, from the entry it was computed from. -/
def WriteSite.generation : WriteSite → Option ℕ
  | .touch read => some read.generation
  | .invalidate read => some (wrapAdd 32 read.generation 1)
  | .probe read => some (generationOf read)
  | .direct => none

/-- Whether the entry a write replaces is of the generation the write was computed
from.  An invalidation may find that another one, computed from the same entry, has
come first. -/
def WriteSite.upToDate (replaced : Option ObjectMeta) : WriteSite → Bool
  | .touch read => generationOf replaced = read.generation
  | .invalidate read => generationOf replaced = read.generation ||
      generationOf replaced = read.generation + 1
  | .probe read => generationOf replaced = generationOf read
  | .direct => true

/-- No write to the object's entry overtakes another. -/
def undisturbed (id : ObjectId) : Event Act Act.Res → Bool
  | ⟨.indexPut object _ site, replaced⟩ => object ≠ id || site.upToDate replaced
  | _ => true

/-- The generation an event writes to the object's entry. -/
def writtenBy (id : ObjectId) : Event Act Act.Res → Option ℕ
  | ⟨.indexPut object info _, _⟩ => if object = id then some info.generation else none
  | _ => none

def isInvalidation (id : ObjectId) : Event Act Act.Res → Bool
  | ⟨.indexPut object _ (.invalidate _), _⟩ => object = id
  | _ => false

/-- The invalidations of the object so far. -/
def invalidations (id : ObjectId) (h : Hist) : ℕ := h.countP (isInvalidation id)

theorem invalidations_cons (id : ObjectId) (e : Event Act Act.Res) (h : Hist) :
    invalidations id (e :: h) = invalidations id h + if isInvalidation id e then 1 else 0 := by
  rw [invalidations, List.countP_cons]
  rfl

/-- The object's entry after some history: it is there, and as long as the counter
has not wrapped it is bounded by the invalidations and below nothing that was ever
written. -/
structure Counted (id : ObjectId) (start : ℕ) (h : Hist) (s : Shared) : Prop where
  entry : s.index.get id ≠ none
  bound : start + invalidations id h < 2 ^ 32 → live id s ≤ start + invalidations id h
  written : start + invalidations id h < 2 ^ 32 →
    ∀ e ∈ h, ∀ g, writtenBy id e = some g → g ≤ live id s

/-- What the tasks considered here keep to: a written entry carries the generation
its site says, and nothing is removed. -/
def WritesBack (id : ObjectId) : Act → Prop
  | .indexPut object info site => object = id → site.generation = some info.generation
  | .indexRemove _ => False
  | _ => True

section Steps

variable {id : ObjectId} {start : ℕ} {h : Hist} {s s' : Shared}

/-- An event that neither writes the object's entry nor changes its live
generation. -/
theorem Counted.pass (hc : Counted id start h s) {e : Event Act Act.Res}
    (hindex : s'.index.get id = s.index.get id) (hwritten : writtenBy id e = none) :
    Counted id start (e :: h) s' := by
  have hlive : live id s' = live id s := by rw [live, live, hindex]
  have hle : invalidations id h ≤ invalidations id (e :: h) := by
    rw [invalidations_cons]
    omega
  refine ⟨by rw [hindex]; exact hc.entry, fun hlt => ?_, fun hlt e' he' g hg => ?_⟩
  · rw [hlive]
    exact le_trans (hc.bound (by omega)) (by omega)
  · rw [hlive]
    rcases List.mem_cons.mp he' with rfl | hold
    · rw [hwritten] at hg
      cases hg
    · exact hc.written (by omega) e' hold g hg

/-- An undisturbed write does not lower the live generation, and raises it only by
invalidating. -/
theorem undisturbed_write (id : ObjectId) {info : ObjectMeta} {site : WriteSite}
    {replaced : Option ObjectMeta} {bound : ℕ} (hsite : site.generation = some info.generation)
    (hu : site.upToDate replaced = true)
    (hbound : generationOf replaced ≤ bound)
    (hlt : bound + (if isInvalidation id ⟨.indexPut id info site, replaced⟩ then 1 else 0) <
      2 ^ 32) :
    generationOf replaced ≤ info.generation ∧ info.generation ≤
      bound + if isInvalidation id ⟨.indexPut id info site, replaced⟩ then 1 else 0 := by
  cases site with
  | touch read =>
      have hread : generationOf replaced = read.generation := of_decide_eq_true hu
      have hinfo : read.generation = info.generation := Option.some.inj hsite
      omega
  | probe read =>
      have hread : generationOf replaced = generationOf read := of_decide_eq_true hu
      have hinfo : generationOf read = info.generation := Option.some.inj hsite
      omega
  | invalidate read =>
      have hread : generationOf replaced = read.generation ∨
          generationOf replaced = read.generation + 1 := by
        simpa [WriteSite.upToDate] using hu
      have hinfo : wrapAdd 32 read.generation 1 = info.generation := Option.some.inj hsite
      simp only [isInvalidation, decide_true, if_true] at hlt ⊢
      rw [wrapAdd_of_lt (by omega)] at hinfo
      omega
  | direct => cases hsite

/-- **One step keeps the count.** -/
theorem counted_step {a : Act} {choice : Choice} {r : a.Res} (hc : Counted id start h s)
    (hpre : WritesBack id a) (hu : undisturbed id ⟨a, r⟩ = true)
    (hexec : exec a choice s = some (r, s')) : Counted id start (⟨a, r⟩ :: h) s' := by
  by_cases hwrites : a.writesIndex = false
  · refine hc.pass (by rw [exec_index hwrites hexec]) ?_
    cases a <;> first | rfl | cases hwrites
  cases a with
  | indexPut object info site =>
      cases hexec
      by_cases hobject : object = id
      · subst hobject
        have hlive : live object { s with index := s.index.put object info } = info.generation := by
          rw [live_put rfl, if_pos rfl]
        have hcurrent : site.upToDate (s.index.get object) = true := by
          simpa [undisturbed] using hu
        have hstep := fun hlt => undisturbed_write object (hpre rfl) hcurrent
          (hc.bound (lt_of_le_of_lt (Nat.le_add_right _ _) hlt)) hlt
        have hcount := invalidations_cons object
          ⟨.indexPut object info site, s.index.get object⟩ h
        refine ⟨by simp, fun hlt => ?_, fun hlt e he g hg => ?_⟩
        · rw [hcount, ← add_assoc] at hlt ⊢
          rw [hlive]
          exact (hstep hlt).2
        · rw [hcount, ← add_assoc] at hlt
          rw [hlive]
          rcases List.mem_cons.mp he with rfl | hold
          · simp only [writtenBy, if_true, Option.some.injEq] at hg
            exact hg.ge
          · exact le_trans (hc.written (lt_of_le_of_lt (Nat.le_add_right _ _) hlt) e hold g hg)
              (hstep hlt).1
      · refine hc.pass ?_ (if_neg hobject)
        rw [ObjectIndex.get_put, if_neg (Ne.symm hobject)]
  | indexRemove ids => exact hpre.elim
  | _ => exact absurd rfl hwrites

end Steps

/-! ## The tasks -/

/-- What a read of the object's entry finds. -/
def Finds (id : ObjectId) : (a : Act) → a.Res → Prop
  | .indexGet object _, found => object = id → found ≠ none
  | _, _ => True

/-- The protocol of tasks that write back what they read. -/
def writeBack (id : ObjectId) (start : ℕ) : Protocol exec where
  inv := Counted id start
  pre _ := WritesBack id
  post _ := Finds id
  admits e := undisturbed id e = true
  pre_mono _ hpre := hpre
  step {h s s' a choice r} hinv hpre hu hexec := by
    refine ⟨counted_step hinv hpre hu hexec, ?_⟩
    cases a with
    | indexGet object site =>
        cases hexec
        rintro rfl
        exact hinv.entry
    | _ => trivial

/-- An invalidation that returned has written what it returned. -/
def Invalidated (id : ObjectId) (h : Hist) : Outcome → Prop
  | .invalidated object next => object = id → ∃ e ∈ h, writtenBy id e = some next
  | _ => True

theorem invalidated_stable (id : ObjectId) : Protocol.Stable (Invalidated id) := by
  intro h h' outcome hsub hpost
  cases outcome with
  | invalidated object next =>
      intro heq
      obtain ⟨e, he, hwritten⟩ := hpost heq
      exact ⟨e, hsub he, hwritten⟩
  | _ => trivial

theorem touch_writesBack (id object : ObjectId) : (touch object).All (WritesBack id) := by
  refine .perform_bind trivial fun found => ?_
  cases found with
  | none => trivial
  | some info =>
      refine .perform_bind trivial fun now => ?_
      split
      · trivial
      · exact .perform_bind (fun _ => rfl) fun _ => trivial

theorem probe_writesBack (id : ObjectId) (cfg : Config) (key : CacheKey) (object : ObjectId)
    (url : String) (headers : HeaderMap) (index : ℕ) :
    (probe cfg key object url headers index).All (WritesBack id) := by
  have hfetch : (fetchRange cfg.client (.probe object index) url headers (index * cfg.sliceSize)
      (index * cfg.sliceSize + cfg.sliceSize - 1)).All (WritesBack id) :=
    (fetchRange_network cfg.client (.probe object index) url headers _ _).imp
      fun a ha => by cases a <;> trivial
  refine hfetch.bind fun answer => ?_
  cases answer with
  | error e => trivial
  | ok response =>
      cases hshape : shape url response with
      | error e =>
          simp only [hshape]
          trivial
      | ok parts =>
          simp only [hshape]
          refine .perform_bind trivial fun previous => .perform_bind trivial fun now => ?_
          split
          · exact .perform_bind (fun _ => rfl) fun _ => trivial
          · exact .perform_bind trivial fun _ => .perform_bind (fun _ => rfl) fun _ => trivial

section Run

variable {id : ObjectId} {start : ℕ} {h : Hist}

theorem wp_invalidate_writeBack (object : ObjectId) :
    (writeBack id start).wp (invalidate object)
      (fun h next => object = id → ∃ e ∈ h, writtenBy id e = some next) h := by
  refine Protocol.wp_perform_bind trivial fun h₁ found _ _ hfound => ?_
  cases found with
  | none => exact fun heq => absurd rfl (hfound heq)
  | some info =>
      refine Protocol.wp_perform_bind (fun _ => rfl) fun h₂ replaced _ hmem _ => ?_
      exact fun heq => ⟨_, hmem, if_pos heq⟩

/-- The moves considered: any number of touches, invalidations and probes, of any
objects, in any interleaving. -/
def Process.Step.writesBack : Process.Step → Bool
  | .spawn (.touch _) => true
  | .spawn (.invalidate _) => true
  | .spawn (.probe _ _ _ _) => true
  | .task _ _ => true
  | _ => false

/-- A process some of whose tasks are under way keeps to the protocol. -/
theorem writeBack_step {p p' : Process} {st : Process.Step} (hst : st.writesBack = true)
    (hstep : p.step st = some p') (hp : p.pool.Holds (writeBack id start) (Invalidated id))
    (hu : ∀ e ∈ p'.pool.hist, undisturbed id e = true) :
    p'.pool.Holds (writeBack id start) (Invalidated id) := by
  cases st with
  | spawn job =>
      simp only [Process.step] at hstep
      split at hstep
      · cases hstep
        refine hp.spawn ?_
        cases job with
        | touch object =>
            exact Protocol.wp_bind_of
              (Protocol.wp_of_all ((touch_writesBack id object).imp fun _ ha _ => ha) _)
              fun _ _ _ _ => trivial
        | invalidate object =>
            exact Protocol.wp_bind_of (wp_invalidate_writeBack object) fun _ _ _ hnext => hnext
        | probe key url headers index =>
            exact Protocol.wp_bind_of
              (Protocol.wp_of_all
                ((probe_writesBack id p.cfg key _ url headers index).imp fun _ ha _ => ha) _)
              fun _ _ _ _ => trivial
        | _ => cases hst
      · cases hstep
  | task tid choice =>
      simp only [Process.step, Option.map_eq_some_iff] at hstep
      obtain ⟨pool, hsched, rfl⟩ := hstep
      exact hp.sched (invalidated_stable id) hsched hu
  | _ => cases hst

/-- So does every run of such moves. -/
theorem writeBack_run {p p' : Process} {steps : List Process.Step}
    (hsteps : steps.all Process.Step.writesBack = true) (hrun : p.run steps = some p')
    (hp : p.pool.Holds (writeBack id start) (Invalidated id))
    (hu : ∀ e ∈ p'.pool.hist, undisturbed id e = true) :
    p'.pool.Holds (writeBack id start) (Invalidated id) := by
  refine Process.run_induct (C := fun _ st => st.writesBack = true)
    (I := fun q => (∀ e ∈ q.pool.hist, undisturbed id e = true) →
      q.pool.Holds (writeBack id start) (Invalidated id)) ?_ (fun _ => hp)
    (Process.along_of_forall fun _ st hst => List.all_eq_true.mp hsteps st hst) hrun hu
  intro q st q' hq hst hstep hu'
  exact writeBack_step hst hstep
    (hq fun e he => hu' e (Process.hist_subset_of_step hstep he)) hu'

end Run

/-- **An invalidation that no write overtakes is kept.**  Start with the object's
entry in the index and run any number of touches, invalidations and probes in any
interleaving.  Once an invalidation has returned, every later read of the entry
returns at least its generation, as long as each write to the entry is undisturbed
and the counter does not wrap. -/
theorem invalidation_kept {id : ObjectId} {entry : ObjectMeta} {p₀ p₁ p₂ : Process}
    {steps₁ steps₂ : List Process.Step} {next : ℕ}
    (hidle : p₀.pool.threads = []) (hnew : p₀.pool.hist = [])
    (hentry : p₀.pool.shared.index.get id = some entry)
    (hsteps₁ : steps₁.all Process.Step.writesBack = true) (hrun₁ : p₀.run steps₁ = some p₁)
    (hsteps₂ : steps₂.all Process.Step.writesBack = true) (hrun₂ : p₁.run steps₂ = some p₂)
    (hwrap : entry.generation + invalidations id p₂.pool.hist < 2 ^ 32)
    (hu : ∀ e ∈ p₂.pool.hist, undisturbed id e = true)
    (hdone : Outcome.invalidated id next ∈ p₁.pool.results) :
    ∀ site choice found s, exec (.indexGet id site) choice p₂.pool.shared = some (found, s) →
      ∃ info, found = some info ∧ next ≤ info.generation := by
  have hstart : p₀.pool.Holds (writeBack id entry.generation) (Invalidated id) := by
    refine ⟨⟨by simp [hentry], fun _ => ?_, fun _ e he => ?_⟩, fun thread hthread => ?_⟩
    · rw [live_of_get hentry]
      exact Nat.le_add_right _ _
    · rw [hnew] at he
      cases he
    · rw [hidle] at hthread
      cases hthread
  have hsub := Process.hist_subset_of_run hrun₂
  have hmid := writeBack_run hsteps₁ hrun₁ hstart fun e he => hu e (hsub he)
  have hlast := writeBack_run hsteps₂ hrun₂ hmid hu
  obtain ⟨e, he, hwritten⟩ := hmid.result hdone rfl
  have hle : next ≤ live id p₂.pool.shared := hlast.inv.written hwrap e (hsub he) next hwritten
  intro site choice found s hexec
  cases hexec
  cases hget : p₂.pool.shared.index.get id with
  | none => exact absurd hget hlast.inv.entry
  | some info => exact ⟨info, rfl, by rw [← live_of_get hget]; exact hle⟩

namespace Scenario

open Process

/-- A process over an index that knows the object. -/
def known : Process where
  cfg := config
  file := config.stored.render
  pool := { shared := { Shared.init with
              index := ObjectIndex.empty.put object (info "\"v1\"" 1 0) }
            hist := []
            threads := [] }

/-- An invalidation runs to its end. -/
def invalidateOnce (tid : ℕ) : List Step := .spawn (.invalidate object) :: tasks tid [.go, .go]

/-- A touch that comes an hour later runs to its end. -/
def touchLater (tid : ℕ) : List Step :=
  .spawn (.touch object) :: tasks tid [.go, .time 3600, .go]

theorem invalidation_kept_touch :
    ∃ p₁ p₂, known.run (invalidateOnce 0) = some p₁ ∧ p₁.run (touchLater 1) = some p₂ ∧
      Outcome.invalidated object 1 ∈ p₁.pool.results ∧
      ∀ site choice found s,
        exec (.indexGet object site) choice p₂.pool.shared = some (found, s) →
          ∃ info, found = some info ∧ 1 ≤ info.generation := by
  obtain ⟨p₁, hrun₁, hdone, hlater⟩ := exists_run known (invalidateOnce 0)
    (fun p₁ => Outcome.invalidated object 1 ∈ p₁.pool.results ∧
      (p₁.run (touchLater 1)).map (fun p₂ => decide (
        invalidations object p₂.pool.hist = 1 ∧ ∀ e ∈ p₂.pool.hist, undisturbed object e = true)) =
          some true) (by decide +kernel)
  rw [Option.map_eq_some_iff] at hlater
  obtain ⟨p₂, hrun₂, hp₂⟩ := hlater
  obtain ⟨hcount, hu⟩ := of_decide_eq_true hp₂
  refine ⟨p₁, p₂, hrun₁, hrun₂, hdone, ?_⟩
  have hentry : known.pool.shared.index.get object = some (info "\"v1\"" 1 0) :=
    ObjectIndex.get_put_self _ _ _
  exact invalidation_kept rfl rfl hentry (by decide) hrun₁ (by decide) hrun₂
    (by rw [hcount]; decide) hu hdone

/-- A touch reads the entry.  An invalidation then runs to its end, and the touch
writes back what it read. -/
theorem invalidation_lost :
    ∃ p₁ p₂, known.run (.spawn (.touch object) :: tasks 0 [.go, .time 3600] ++
        invalidateOnce 1) = some p₁ ∧ p₁.run (tasks 0 [.go]) = some p₂ ∧
      Outcome.invalidated object 1 ∈ p₁.pool.results ∧
      ∃ found, exec (.indexGet object .metadata) .go p₂.pool.shared =
        some (some found, p₂.pool.shared) ∧ ¬ 1 ≤ found.generation := by
  obtain ⟨p₁, hrun₁, hdone, hlater⟩ := exists_run known
    (.spawn (.touch object) :: tasks 0 [.go, .time 3600] ++ invalidateOnce 1)
    (fun p₁ => Outcome.invalidated object 1 ∈ p₁.pool.results ∧
      (p₁.run (tasks 0 [.go])).map (fun p₂ => p₂.pool.shared.index.get object) =
          some (some { info "\"v1\"" 1 0 with lastSeen := 3600 })) (by decide +kernel)
  rw [Option.map_eq_some_iff] at hlater
  obtain ⟨p₂, hrun₂, hget⟩ := hlater
  refine ⟨p₁, p₂, hrun₁, hrun₂, hdone, { info "\"v1\"" 1 0 with lastSeen := 3600 }, ?_, ?_⟩
  · rw [exec, hget]
  · decide

end Scenario

end Cachic
