import Cachic.Properties.Indexed

/-!
# Purging

A purge removes the objects the index knows under a prefix.  What a request knows
about an object is in two places, the index entry and the metadata cell, and a
purge looks at one of them.

This file follows a process that is sometimes busy with requests and sometimes purging.  In a
burst any number of requests run at once (`Cachic.Properties.Indexed`); a purge runs between
bursts, when no task of a request is left.  That is a condition: a slice task that runs across
a purge stores its slice after the entry is gone.  A purge keeps the index complete when it also
finds the objects it removes without a set cell and with no slices beyond those their entries
describe; it is then complete and repeatable (`purge_complete`).  `request_after_purge` is what
happens otherwise.
-/

namespace Cachic

open Range ActionLang Prog

/-! ## Purges -/

/-- The objects can be removed by what their entries say: no metadata cell of theirs
is set, and all their slices are at the entry's generation and among those it
counts. -/
def Removable (cfg : Config) (ids : List ObjectId) (s : Shared) : Prop :=
  ∀ id ∈ ids, ∀ info, s.index.get id = some info →
    (∀ cell found, s.cellOf id = some cell → s.cells cell ≠ .ready found) ∧
    ∀ key value, key.object = id → s.store key = some value →
      key.generation = info.generation ∧
        ∃ j < sliceCount info.totalLen cfg.sliceSize, j % 2 ^ 32 = key.index

/-- A purge that finds its objects removable. -/
def CleanPurge (cfg : Config) (start : String) (s : Shared) : Prop :=
  Removable cfg (s.index.idsWithPrefix start) s

/-- While a purge removes the objects `ids`. -/
structure Purging (cfg : Config) (keys : List CacheKey) (ids : List ObjectId) (s : Shared) :
    Prop where
  indexed : Indexed cfg keys s
  removable : Removable cfg ids s

section Purges

variable {cfg : Config} {keys : List CacheKey} {ids : List ObjectId} {s s' : Shared}

theorem Purging.dropSlice (hs : Purging cfg keys ids s) (key : SliceKey) :
    Purging cfg keys ids (s.setSlice key none) := by
  have hkept : ∀ {k value}, (s.setSlice key none).store k = some value →
      s.store k = some value := by
    intro k value hstore
    rcases update_eq_some hstore with ⟨-, hnone⟩ | hold
    · cases hnone
    · exact hold
  refine ⟨{ hs.indexed with
    stored := fun k value hstore => hs.indexed.stored k value (hkept hstore)
    labelled := ⟨hs.indexed.labelled.cell, hs.indexed.labelled.flight, hs.indexed.labelled.fill⟩ },
    fun id hid info hget => ?_⟩
  obtain ⟨hcell, hslices⟩ := hs.removable id hid info hget
  exact ⟨hcell, fun k value hk hstore => hslices k value hk (hkept hstore)⟩

/-- Removing the entry of an object of which nothing else is left. -/
theorem Purging.dropEntry (hs : Purging cfg keys ids s) {id : ObjectId}
    (hslices : ∀ key value, s.store key = some value → key.object ≠ id)
    (hcell : ∀ cell info, s.cellOf id = some cell → s.cells cell ≠ .ready info) :
    Purging cfg keys ids { s with index := s.index.removeAll [id] } := by
  have hget : ∀ object, (s.index.removeAll [id]).get object =
      if object = id then none else s.index.get object := by
    intro object
    rw [ObjectIndex.get_removeAll]
    simp only [List.mem_singleton]
  have hkept : ∀ {object info}, (s.index.removeAll [id]).get object = some info →
      s.index.get object = some info := by
    intro object info h
    rw [hget] at h
    split at h
    · cases h
    · exact h
  have hlabelled := hs.indexed.labelled
  refine ⟨{ hs.indexed with
    named := ?_
    stored := ?_
    cells := ?_
    labelled := ⟨hlabelled.cell, hlabelled.flight, hlabelled.fill⟩ }, ?_⟩
  · exact fun object info h => hs.indexed.named object info (hkept h)
  · intro key value hv
    rw [hget, if_neg (hslices key value hv)]
    exact hs.indexed.stored key value hv
  · intro object cell info hc hready
    have hne : object ≠ id := by
      rintro rfl
      exact hcell cell info hc hready
    rw [hget, if_neg hne]
    exact hs.indexed.cells object cell info hc hready
  · exact fun object hobject info h => hs.removable object hobject info (hkept h)

theorem removeSlices_purging (id : ObjectId) (info : ObjectMeta) (gone indices : List ℕ) :
    Triple exec (fun s => Purging cfg keys ids s ∧ s.index.get id = some info ∧
        ∀ j ∈ gone, s.store ⟨id, info.generation, j % 2 ^ 32⟩ = none)
      (removeSlices id info.generation indices)
      fun _ s => Purging cfg keys ids s ∧ s.index.get id = some info ∧
        ∀ j ∈ gone ++ indices, s.store ⟨id, info.generation, j % 2 ^ 32⟩ = none := by
  induction indices generalizing gone with
  | nil => exact .ret fun s hs => by simpa using hs
  | cons index rest ih =>
      refine .perform_bind (fun _ s => Purging cfg keys ids s ∧ s.index.get id = some info ∧
        ∀ j ∈ gone ++ [index], s.store ⟨id, info.generation, j % 2 ^ 32⟩ = none) ?_ fun _ => ?_
      · rintro s choice r s₁ ⟨hs, hget, hgone⟩ hexec
        cases hexec
        refine ⟨hs.dropSlice _, hget, fun j hj => ?_⟩
        by_cases hstill : s.store ⟨id, info.generation, j % 2 ^ 32⟩ = none
        · exact (Function.forall_update_iff s.store
            (p := fun k x => s.store k = none → x = none)).mpr
            ⟨fun _ => rfl, fun _ _ h => h⟩ _ hstill
        · rcases List.mem_append.mp hj with hold | hnew
          · exact absurd (hgone j hold) hstill
          · rw [List.mem_singleton.mp hnew]
            exact Function.update_self _ _ _
      · have hrest := ih (gone ++ [index])
        rwa [List.append_assoc, List.singleton_append] at hrest

/-- Purging one object removes all that was kept of it. -/
theorem purgeObject_purging {id : ObjectId} (hid : id ∈ ids) :
    Triple exec (Purging cfg keys ids) (purgeObject cfg id)
      fun _ s => Purging cfg keys ids s ∧ s.index.get id = none := by
  have hdrop : ∀ count : ℕ, Triple exec (fun s => Purging cfg keys ids s ∧
      (∀ key value, s.store key = some value → key.object ≠ id) ∧
      ∀ cell info, s.cellOf id = some cell → s.cells cell ≠ .ready info)
      (do let _ ← ask (.indexRemove [id]); return count)
      fun _ s => Purging cfg keys ids s ∧ s.index.get id = none := by
    intro count
    refine .perform_bind (fun _ s => Purging cfg keys ids s ∧ s.index.get id = none) ?_
      fun _ => .ret fun s hs => hs
    rintro s choice r s₁ ⟨hs, hslices, hcell⟩ hexec
    cases hexec
    exact ⟨hs.dropEntry hslices hcell, by simp [ObjectIndex.get_removeAll]⟩
  refine .perform_bind (fun found s => Purging cfg keys ids s ∧ s.index.get id = found)
    (fun s choice found s₁ hs hexec => by cases hexec; exact ⟨hs, rfl⟩) fun found => ?_
  cases found with
  | none =>
      refine (hdrop 0).conseq (fun s hs => ⟨hs.1, ?_, ?_⟩) fun _ _ h => h
      · rintro key value hv rfl
        exact hs.1.indexed.entry hv hs.2
      · exact fun cell info hc hready => hs.1.indexed.cells id cell info hc hready hs.2
  | some info =>
      refine .bind _ ((removeSlices_purging id info [] _).conseq
        (fun s hs => ⟨hs.1, hs.2, fun j hj => by cases hj⟩) fun _ _ h => h) fun _ => ?_
      refine (hdrop _).conseq (fun s hs => ⟨hs.1, ?_, ?_⟩) fun _ _ h => h
      · rintro key value hv rfl
        obtain ⟨-, hslices⟩ := hs.1.removable _ hid info hs.2.1
        obtain ⟨hgen, j, hj, hindex⟩ := hslices key value rfl hv
        have hgone := hs.2.2 j (by simpa using hj)
        rw [← hgen, hindex, hv] at hgone
        cases hgone
      · exact (hs.1.removable id hid info hs.2.1).1

/-- Purging objects one after another. -/
theorem purgeIds_purging (these : List ObjectId) (hthese : these ⊆ ids) :
    Triple exec (Purging cfg keys ids) (purgeIds cfg these)
      fun _ s => Purging cfg keys ids s ∧ ∀ id ∈ these, s.index.get id = none := by
  induction these with
  | nil => exact .ret fun s hs => ⟨hs, fun id hid => by cases hid⟩
  | cons id rest ih =>
      have hrest := ih fun x hx => hthese (List.mem_cons_of_mem id hx)
      refine .bind _ (purgeObject_purging (hthese List.mem_cons_self)) fun removed => ?_
      rintro s trace total s' ⟨hs, hnone⟩ hrun
      obtain ⟨others, s₁, tr₁, tr₂, -, hrunRest, hret⟩ := runs_bind_iff.mp hrun
      obtain ⟨-, -, rfl⟩ := runs_ret_iff.mp hret
      obtain ⟨hs', hgone⟩ := hrest s tr₁ others s' hs hrunRest
      refine ⟨hs', fun x hx => ?_⟩
      rcases List.mem_cons.mp hx with rfl | hx
      · -- what was removed stays removed: a purge writes no entry
        by_contra hsome
        obtain ⟨info, hinfo⟩ := Option.ne_none_iff_exists'.mp hsome
        rw [entries_of_removes (purgeIds_removes cfg rest) hrunRest hinfo] at hnone
        cases hnone
      · exact hgone x hx

/-- A clean purge keeps the index complete and removes every entry it found. -/
theorem purge_indexed {start : String} {trace : List (Event Act Act.Res)} {counts : ℕ × ℕ}
    (hs : Indexed cfg keys s) (hclean : CleanPurge cfg start s)
    (hrun : Runs exec (purge cfg start) s trace counts s') :
    Indexed cfg keys s' ∧ ∀ id ∈ s.index.idsWithPrefix start, s'.index.get id = none := by
  obtain ⟨choice, found, s₁, rest, hexec, -, hrun⟩ := runs_perform_bind_iff.mp hrun
  cases hexec
  obtain ⟨removed, s₂, tr₁, tr₂, -, hrunIds, hret⟩ := runs_bind_iff.mp hrun
  obtain ⟨-, -, rfl⟩ := runs_ret_iff.mp hret
  obtain ⟨hpurging, hgone⟩ := purgeIds_purging _ (List.Subset.refl _) s tr₁ removed s'
    ⟨hs, hclean⟩ hrunIds
  exact ⟨hpurging.indexed, hgone⟩

end Purges

/-! ## The request after a purge -/

/-- A plan asked the origin about the object. -/
def ProbesAnew (object : ObjectId) (url : String) (trace : List (Event Act Act.Res)) : Prop :=
  ∃ answer, ⟨.resolve url, answer⟩ ∈ trace ∧ (answer = .ok () →
    ∃ index request reply, (⟨.send (.probe object index) request, reply⟩ :
      Event Act Act.Res) ∈ trace)

theorem ProbesAnew.mono {object : ObjectId} {url : String}
    {trace trace' : List (Event Act Act.Res)} (hsub : trace ⊆ trace')
    (h : ProbesAnew object url trace) : ProbesAnew object url trace' := by
  obtain ⟨answer, hresolve, hsend⟩ := h
  refine ⟨answer, hsub hresolve, fun hok => ?_⟩
  obtain ⟨index, request, reply, hmem⟩ := hsend hok
  exact ⟨index, request, reply, hsub hmem⟩

section Probing

variable {cfg : Config} {keys : List CacheKey} {s s' : Shared} {trace : List (Event Act Act.Res)}

theorem attempt_sends {client : ClientConfig} {purpose : Purpose} {request : Request}
    {start stop retries : ℕ} {result : Except UpstreamError UpstreamResponse}
    (h : Runs exec (attempt client purpose request start stop retries) s trace result s') :
    ∃ reply, (⟨.send purpose request, reply⟩ : Event Act Act.Res) ∈ trace := by
  cases retries with
  | zero =>
      obtain ⟨choice, reply, s₁, rest, -, rfl, -⟩ := runs_perform_bind_iff.mp h
      exact ⟨reply, List.mem_cons_self⟩
  | succ retries =>
      obtain ⟨choice, reply, s₁, rest, -, rfl, -⟩ := runs_perform_bind_iff.mp h
      exact ⟨reply, List.mem_cons_self⟩

theorem probe_probes {key : CacheKey} {object : ObjectId} {url : String} {headers : HeaderMap}
    {index : ℕ} {result : Except OrchestratorError ObjectMeta}
    (h : Runs exec (probe cfg key object url headers index) s trace result s') :
    ProbesAnew object url trace := by
  obtain ⟨fetched, s₁, tr₁, tr₂, rfl, hfetch, -⟩ := runs_bind_iff.mp h
  refine ProbesAnew.mono (List.subset_append_left tr₁ tr₂) ?_
  obtain ⟨choice, answer, s₂, rest, -, rfl, hrest⟩ := runs_perform_bind_iff.mp hfetch
  refine ⟨answer, List.mem_cons_self, fun hok => ?_⟩
  rw [hok] at hrest
  obtain ⟨reply, hmem⟩ := attempt_sends hrest
  exact ⟨index, _, reply, List.mem_cons_of_mem _ hmem⟩

/-- A request for an object nothing is known of probes the origin. -/
theorem plan_probes {key : CacheKey} {url : String} {headers : HeaderMap}
    {rawRange : Option String} {result : Except OrchestratorError Plan}
    (hs : Indexed cfg keys s) (hnone : s.index.get (cfg.objectId key) = none)
    (h : Runs exec (plan cfg key url headers rawRange) s trace result s') :
    ProbesAnew (cfg.objectId key) url trace := by
  obtain ⟨found, s₁, tr₁, tr₂, rfl, hmetadata, -⟩ := runs_bind_iff.mp h
  refine ProbesAnew.mono (List.subset_append_left tr₁ tr₂) ?_
  obtain ⟨_, entry, s₂, rest₂, hget, rfl, hcold⟩ := runs_perform_bind_iff.mp hmetadata
  cases hget
  rw [hnone] at hcold
  obtain ⟨_, cell, s₃, rest₃, hmade, rfl, hinit⟩ := runs_perform_bind_iff.mp hcold
  have hcell := cellOf_of_exec hmade
  have hindex := exec_index rfl hmade
  obtain ⟨_, initialized, s₄, rest₄, hread, rfl, henter⟩ := runs_perform_bind_iff.mp hinit
  cases hread
  obtain ⟨_, entered, s₅, rest₅, hexec, rfl, hrest⟩ := runs_perform_bind_iff.mp henter
  simp only [exec] at hexec
  split at hexec
  · -- a cell that is set would have an entry
    rename_i info hready
    rcases exec_cellOf_cases hmade hcell with hold | ⟨hserial, -, hcells⟩
    · have hset : s.cells cell = .ready info := by
        rcases exec_cells_cases hmade cell with hsame | ⟨h, -⟩ | ⟨_, h, -⟩ | ⟨h, -⟩
        · exact hsame ▸ hready
        all_goals cases h
      exact absurd hnone (hs.cells _ cell info hold hset)
    · rw [hcells, hs.unused cell hserial.ge] at hready
      cases hready
  · cases hexec
    obtain ⟨probed, s₆, tr₆, tr₇, rfl, hprobe, -⟩ := runs_bind_iff.mp hrest
    refine (probe_probes hprobe).mono fun e he => ?_
    simp [he]
  · cases hexec

end Probing

/-! ## Requests and purges -/

/-- Bursts of requests and clean purges, one after another. -/
inductive Phases (cfg : Config) (keys : List CacheKey) : Shared → Shared → Prop
  | done (s : Shared) : Phases cfg keys s s
  | burst {s s₁ s' : Shared} : Burst cfg keys s s₁ → Phases cfg keys s₁ s' → Phases cfg keys s s'
  | purge {s s₁ s' : Shared} {start : String} {trace : List (Event Act Act.Res)}
      {counts : ℕ × ℕ} : CleanPurge cfg start s →
      Runs exec (Cachic.purge cfg start) s trace counts s₁ →
      Phases cfg keys s₁ s' → Phases cfg keys s s'

theorem phases_indexed {cfg : Config} {keys : List CacheKey} {s s' : Shared}
    (hphases : Phases cfg keys s s') (hs : Indexed cfg keys s) : Indexed cfg keys s' := by
  induction hphases with
  | done s => exact hs
  | burst hburst _ ih => exact ih (burst_indexed hs hburst)
  | purge hclean hpurge _ ih => exact ih (purge_indexed hs hclean hpurge).1

/-- **A clean purge is complete and repeatable.**  After any bursts of requests and clean
purges, a clean purge of a prefix leaves no slice of an object whose key starts with
it, at any generation; the next request for such an object probes the origin; and
at every moment after any further bursts and clean purges, in the middle of requests included,
every object with a stored slice has an index entry, or the task that stored it is about to
write the entry. -/
theorem purge_complete {cfg : Config} {start : String} {keys : List CacheKey}
    {key : CacheKey} {s₀ s s₁ s₂ : Shared} {trace : List (Event Act Act.Res)} {counts : ℕ × ℕ}
    (hs₀ : Indexed cfg keys s₀) (hbefore : Phases cfg keys s₀ s) (hclean : CleanPurge cfg start s)
    (hpurge : Runs exec (purge cfg start) s trace counts s₁) (hafter : Phases cfg keys s₁ s₂)
    (hstart : start.toList.isPrefixOf key.key.toList = true)
    (hcollision : ∀ k ∈ keys, cfg.objectId k = cfg.objectId key → k.key = key.key) :
    (∀ generation index, s₁.store ⟨cfg.objectId key, generation, index⟩ = none) ∧
    (∀ url headers rawRange tr result s',
      Runs exec (plan cfg key url headers rawRange) s₁ tr result s' →
        ProbesAnew (cfg.objectId key) url tr) ∧
    (∀ slice value, s₂.store slice = some value → s₂.index.get slice.object ≠ none) ∧
    ∀ p, Busy cfg keys s₂ p → ∀ slice value, p.pool.shared.store slice = some value →
      p.pool.shared.index.get slice.object ≠ none ∨
        ∃ thread ∈ p.pool.threads, Pays slice.object thread := by
  have hs := phases_indexed hbefore hs₀
  obtain ⟨hs₁, hgone⟩ := purge_indexed hs hclean hpurge
  have hs₂ := phases_indexed hafter hs₁
  -- the object had an entry the purge found, or none at all
  have hnone : s₁.index.get (cfg.objectId key) = none := by
    by_contra hsome
    obtain ⟨info, hinfo⟩ := Option.ne_none_iff_exists'.mp hsome
    have hbefore := entries_of_removes (purge_removes cfg start) hpurge hinfo
    obtain ⟨k, hk, hobject, hname⟩ := hs.named _ _ hbefore
    have hfound : cfg.objectId key ∈ s.index.idsWithPrefix start :=
      ObjectIndex.mem_idsWhere_iff.mpr ⟨info, hbefore, by
        rw [hname, hcollision k hk hobject]
        exact hstart⟩
    exact hsome (hgone _ hfound)
  refine ⟨fun generation index => ?_, ?_, fun slice value => hs₂.entry,
    fun p hbusy slice value => busy_indexed hs₂ hbusy⟩
  · by_contra hsome
    obtain ⟨value, hvalue⟩ := Option.ne_none_iff_exists'.mp hsome
    exact hs₁.entry hvalue hnone
  · exact fun url headers rawRange tr result s' hrun => plan_probes hs₁ hnone hrun

namespace Scenario

/-- The origin that has version 1. -/
def originV1 : Act → Shared → Choice := steady (raw "\"v1\"" "bytes 0-0/1" [1])

/-- Evaluate a computation and test what it gives. -/
theorem exists_of_map_decide {α : Type} {x : Option α} (P : α → Prop) [DecidablePred P]
    (h : (x.map fun a => decide (P a)) = some true) : ∃ a, x = some a ∧ P a := by
  obtain ⟨a, hx, hP⟩ := Option.map_eq_some_iff.mp h
  exact ⟨a, hx, of_decide_eq_true hP⟩

/-- Run the steps of a burst until every task has returned. -/
def burst (steps : List Process.Step) (s : Shared) : Option Shared := do
  let p ← Process.run
    { cfg := config, file := "", pool := { shared := s, hist := [], threads := [] } } steps
  if p.pool.results.length = p.pool.threads.length then some p.pool.shared else none

theorem burst_of_eq_some {steps : List Process.Step} {s s' : Shared}
    (hsteps : ∀ st ∈ steps, Process.Step.OfRequest [key] st) (h : burst steps s = some s') :
    Burst config [key] s s' := by
  obtain ⟨p, hrun, hp⟩ := Option.bind_eq_some_iff.mp h
  split at hp
  · next hreturned =>
      cases hp
      refine ⟨p, ⟨"", steps, hsteps, hrun⟩, fun thread hthread => ?_, rfl⟩
      have hsome := List.filterMap_length_eq_length.mp hreturned thread hthread
      cases thread with
      | ret outcome => exact ⟨outcome, rfl⟩
      | act a next => simp at hsome
  · cases hp

/-- A request for the one-byte object, planned by a probe; the slice of its body is stored. -/
def requestOnce : List Process.Step :=
  coldRequest 0 "bytes=0-" (reply "\"v1\"" "bytes 0-0/1" [1]) 1 ++
    fetch 1 (plan "\"v1\"" 1 0 0 0 .miss) 0 [.go]

/-- A process that has just started over a directory with the object in it. -/
def directory : Shared :=
  .boot (ObjectIndex.empty.put object (info "\"v1\"" 1 0))
    (Function.update (fun _ => none) ⟨object, 0, 0⟩ (some (stored "\"v1\"" 1 0 [1]))) 0

theorem directory_get {id : ObjectId} {found : ObjectMeta}
    (h : directory.index.get id = some found) : id = object ∧ found = info "\"v1\"" 1 0 := by
  have hget : directory.index.get id =
      if id = object then some (info "\"v1\"" 1 0) else ObjectIndex.empty.get id :=
    ObjectIndex.get_put _ _ _ _
  rw [hget] at h
  split at h
  · rename_i heq
    exact ⟨heq, (Option.some.inj h).symm⟩
  · cases h

theorem directory_store {k : SliceKey} {value : SliceValue}
    (h : directory.store k = some value) : k = ⟨object, 0, 0⟩ := by
  have hupdate : Function.update (fun _ => none) ⟨object, 0, 0⟩
      (some (stored "\"v1\"" 1 0 [1])) k = some value := h
  rcases update_eq_some hupdate with ⟨hk, -⟩ | hnone
  · exact hk
  · cases hnone

theorem indexed_directory : Indexed config [key] directory := by
  refine .boot 0 (fun id found h => ?_) fun k value h => ?_
  · obtain ⟨rfl, rfl⟩ := directory_get h
    exact ⟨key, List.mem_singleton_self _, rfl, rfl⟩
  · rw [directory_store h, ObjectIndex.get_put_self]
    simp

theorem cleanPurge_directory (start : String) : CleanPurge config start directory := by
  intro id _ found h
  obtain ⟨rfl, rfl⟩ := directory_get h
  refine ⟨fun cell found hcell => (by cases hcell), fun k value _ hstore => ?_⟩
  rw [directory_store hstore]
  exact ⟨rfl, 0, by decide, rfl⟩

theorem requestOnce_ofRequest : ∀ st ∈ requestOnce, Process.Step.OfRequest [key] st := by
  intro st hst
  simp only [requestOnce, coldRequest, request, fetch, tasks, List.cons_append, List.mem_cons,
    List.mem_append, List.mem_map] at hst
  rcases hst with rfl | ⟨_, _, rfl⟩ | rfl | ⟨_, _, rfl⟩
  · exact List.mem_singleton_self _
  all_goals trivial

/-- The object is purged, and the next request fetches it again. -/
theorem purge_complete_directory :
    ∃ trace s₁ s₂, Runs exec (purge config "/depot") directory trace (1, 1) s₁ ∧
      Phases config [key] s₁ s₂ ∧ s₂.store ⟨object, 0, 0⟩ ≠ none ∧
      (∀ generation index, s₁.store ⟨config.objectId key, generation, index⟩ = none) ∧
      (∀ url headers rawRange tr result s',
        Runs exec (Cachic.plan config key url headers rawRange) s₁ tr result s' →
          ProbesAnew (config.objectId key) url tr) ∧
      (∀ slice value, s₂.store slice = some value → s₂.index.get slice.object ≠ none) ∧
      ∀ p, Busy config [key] s₂ p → ∀ slice value, p.pool.shared.store slice = some value →
        p.pool.shared.index.get slice.object ≠ none ∨
          ∃ thread ∈ p.pool.threads, Pays slice.object thread := by
  obtain ⟨s₂, hends, hstored⟩ := exists_of_map_decide
    (x := ((purge config "/depot").run exec originV1 directory).bind fun r =>
      if r.1 = (1, 1) then burst requestOnce r.2 else none)
    (fun s => s.store ⟨object, 0, 0⟩ ≠ none) (by decide +kernel)
  obtain ⟨⟨counts, s₁⟩, hpurge, hrest⟩ := Option.bind_eq_some_iff.mp hends
  split at hrest
  · next hcounts =>
      obtain ⟨trace, hpurge⟩ := runs_of_run hpurge
      cases hcounts
      have hafter : Phases config [key] s₁ s₂ :=
        .burst (burst_of_eq_some requestOnce_ofRequest hrest) (.done s₂)
      have hstart : "/depot".toList.isPrefixOf key.key.toList = true := by decide +kernel
      exact ⟨trace, s₁, s₂, hpurge, hafter, hstored,
        purge_complete indexed_directory (.done directory) (cleanPurge_directory "/depot") hpurge
          hafter hstart fun k hk _ => by rw [List.mem_singleton.mp hk]⟩
  · cases hrest

/-- The same request, planned from the cell the first one has set; its slice is fetched. -/
def requestAgain : List Process.Step :=
  request "bytes=0-" :: tasks 0 [.go, .go, .go, .go, .go] ++
    fetch 1 (plan "\"v1\"" 1 0 0 0 .miss) 0
      [.go, .resolved (.ok ()), reply "\"v1\"" "bytes 0-0/1" [1], .go]

/-- A request sets the object's metadata cell.  After a purge the next request is
planned from the cell: its slice is stored and the object has no entry, so a further
purge does not find it. -/
theorem request_after_purge :
    ∃ s₁ trace s₂ s, Burst config [key] Shared.init s₁ ∧
      Runs exec (purge config "/depot") s₁ trace (1, 1) s₂ ∧ Burst config [key] s₂ s ∧
      (s.cellOf object).map s.cells = some (.ready (info "\"v1\"" 1 0)) ∧
      s.store ⟨object, 0, 0⟩ ≠ none ∧ s.index.get object = none ∧
      s.index.idsWithPrefix "/depot" = [] := by
  obtain ⟨s, hends, hstored⟩ := exists_of_map_decide
    (x := (burst requestOnce Shared.init).bind fun s₁ =>
      ((purge config "/depot").run exec originV1 s₁).bind fun r =>
        if r.1 = (1, 1) then burst requestAgain r.2 else none)
    (fun s => (s.cellOf object).map s.cells = some (.ready (info "\"v1\"" 1 0)) ∧
      s.store ⟨object, 0, 0⟩ ≠ none ∧ s.index.get object = none ∧
      s.index.idsWithPrefix "/depot" = []) (by decide +kernel)
  obtain ⟨s₁, hfirst, hrest⟩ := Option.bind_eq_some_iff.mp hends
  obtain ⟨⟨counts, s₂⟩, hpurge, hrest⟩ := Option.bind_eq_some_iff.mp hrest
  split at hrest
  · next hcounts =>
      obtain ⟨trace, hpurge⟩ := runs_of_run hpurge
      cases hcounts
      have hagain : ∀ st ∈ requestAgain, Process.Step.OfRequest [key] st := by
        intro st hst
        simp only [requestAgain, request, fetch, tasks, List.cons_append, List.mem_cons,
          List.mem_append, List.mem_map] at hst
        rcases hst with rfl | ⟨_, _, rfl⟩ | rfl | ⟨_, _, rfl⟩
        · exact List.mem_singleton_self _
        all_goals trivial
      exact ⟨s₁, trace, s₂, s, burst_of_eq_some requestOnce_ofRequest hfirst, hpurge,
        burst_of_eq_some hagain hrest, hstored⟩
  · cases hrest

end Scenario

end Cachic
