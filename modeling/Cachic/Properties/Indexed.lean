import Cachic.Orchestrator.Confinement
import Cachic.Properties.Generations

/-!
# A complete index

What purging relies on: every object with a stored slice, and every object with a metadata
cell that is set, has an index entry under its key.  `burst_indexed` says that requests keep
it so, however many of them run at once.  A burst is any interleaving of requests, from the
first of them until the last of their tasks has returned.  Its jobs are the ones the program
starts for a request: planning it, fetching the slices of its body, fetching ahead of it
(`maybe_prefetch`), and the slice tasks that go on after their body was dropped.

## Main definitions

* `IndexedBut` is the invariant, up to slices of objects whose entry is still owed: a probe
  stores its slice before it writes the entry, so in the middle of a burst there are such
  slices, and `Indexed` is the invariant with nothing owed.
* `indexing` is the protocol of a burst.  A task knows that an object has its entry from its
  own reads and writes (`shows`), and stores slices of such objects only.
* `Settles` says that a task pays what it owes with its very next step.

The index of the model never fails.  In the program a failed write of the entry is ignored, and
leaves the probe's slice and the metadata cell without one.
-/

namespace Cachic

open Range ActionLang Prog

/-- An entry under the key of a request for its object. -/
def Named (cfg : Config) (keys : List CacheKey) (object : ObjectId) (info : ObjectMeta) : Prop :=
  ∃ key ∈ keys, cfg.objectId key = object ∧ info.key = key.key

/-- Everything kept about an object is reachable from its index entry, up to the slices of
objects whose entry is owed. -/
structure IndexedBut (cfg : Config) (keys : List CacheKey) (owed : ObjectId → Prop)
    (s : Shared) : Prop where
  named : ∀ object info, s.index.get object = some info → Named cfg keys object info
  stored : ∀ key value, s.store key = some value →
    s.index.get key.object ≠ none ∨ owed key.object
  cells : ∀ object cell info, s.cellOf object = some cell → s.cells cell = .ready info →
    s.index.get object ≠ none
  made : ∀ object cell, s.cellOf object = some cell → cell.serial < s.fresh
  /-- Identities not yet given out name nothing. -/
  unused : ∀ cell, s.fresh ≤ cell.serial → s.cells cell = .empty
  labelled : s.Labelled

/-- Everything kept about an object is reachable from its index entry. -/
abbrev Indexed (cfg : Config) (keys : List CacheKey) (s : Shared) : Prop :=
  IndexedBut cfg keys (fun _ => False) s

theorem Indexed.entry {cfg : Config} {keys : List CacheKey} {s : Shared}
    (hs : Indexed cfg keys s) {key : SliceKey} {value : SliceValue}
    (hstored : s.store key = some value) : s.index.get key.object ≠ none :=
  (hs.stored key value hstored).resolve_right id

/-- A process that starts over a directory whose slices are all indexed. -/
theorem Indexed.boot {cfg : Config} {keys : List CacheKey} {index : ObjectIndex}
    {store : SliceKey → Option SliceValue} (fresh : ℕ)
    (hnamed : ∀ object info, index.get object = some info → Named cfg keys object info)
    (hstored : ∀ key value, store key = some value → index.get key.object ≠ none) :
    Indexed cfg keys (Shared.boot index store fresh) where
  named := hnamed
  stored := fun key value h => .inl (hstored key value h)
  cells := fun object cell info h => by cases h
  made := fun object cell h => by cases h
  unused := fun _ _ => rfl
  labelled := Shared.labelled_boot index store fresh

/-! ## What a step can do to slices and cells -/

section Steps

variable {a : Act} {choice : Choice} {s s' : Shared} {r : a.Res}

/-- What an updated map holds is the update or was there before. -/
theorem update_eq_some {α β : Type} [DecidableEq α] {f : α → Option β} {a x : α}
    {value : Option β} {y : β} (h : Function.update f a value x = some y) :
    (x = a ∧ value = some y) ∨ f x = some y := by
  by_cases hx : x = a
  · rw [hx, Function.update_self] at h
    exact .inl ⟨hx, h⟩
  · rw [Function.update_of_ne hx] at h
    exact .inr h

theorem settle_store {key k : SliceKey} {value : SliceValue}
    (h : (s.settle key choice).store k = some value) : s.store k = some value := by
  cases choice with
  | evicted =>
      rcases update_eq_some h with ⟨-, hnone⟩ | hold
      · cases hnone
      · exact hold
  | _ => exact h

/-- A slice that is stored was there, is inserted, or comes from a fetch that ends. -/
theorem exec_store_cases (hexec : exec a choice s = some (r, s')) {key : SliceKey}
    {value : SliceValue} (h : s'.store key = some value) :
    s.store key = some value ∨ (∃ writer, a = .storeInsert key value writer) ∨
      ∃ flight result, a = .storeFinish flight result ∧ flight.key = key := by
  cases a with
  | storeContains k =>
      cases hexec
      exact .inl (settle_store h)
  | storeGet k =>
      rcases exec_storeGet_cases hexec with ⟨text, -, rfl⟩ | ⟨-, rfl⟩
      · exact .inl h
      · exact .inl (settle_store h)
  | storeInsert k inserted writer =>
      cases hexec
      rcases update_eq_some h with ⟨rfl, hnew⟩ | hold
      · cases hnew
        exact .inr (.inl ⟨writer, rfl⟩)
      · exact .inl hold
  | storeRemove k =>
      cases hexec
      rcases update_eq_some h with ⟨-, hnone⟩ | hold
      · cases hnone
      · exact .inl hold
  | storeEnter k =>
      rcases exec_storeEnter_cases hexec with ⟨text, -, -, rfl⟩ | ⟨value, -, -, rfl⟩ |
        ⟨flight, -, -, -, rfl⟩ | ⟨-, -, -, rfl⟩
      · exact .inl h
      all_goals exact .inl (settle_store h)
  | storeFinish flight result =>
      rcases exec_storeFinish_cases hexec with ⟨-, value, response, -, -, rfl⟩ |
        ⟨-, cause, -, -, rfl⟩ | ⟨-, rfl | ⟨value, response, -, rfl⟩⟩
      · exact (update_eq_some h).elim (fun h => .inr (.inr ⟨flight, _, rfl, h.1.symm⟩)) .inl
      · exact .inl h
      · exact .inl h
      · exact (update_eq_some h).elim (fun h => .inr (.inr ⟨flight, _, rfl, h.1.symm⟩)) .inl
  | _ =>
      have hsame : Part.store.Same s s' := exec_frame hexec (by simp [Act.writes])
      exact .inl ((congrFun hsame key).symm.trans h)

/-- A cell stays as it is, or is entered, set or abandoned by a step about it. -/
theorem exec_cells_cases (hexec : exec a choice s = some (r, s')) (cell : CellId) :
    s'.cells cell = s.cells cell ∨ (a = .cellEnter cell ∧ s'.cells cell = .busy) ∨
      (∃ info, a = .cellInit cell info ∧ s'.cells cell = .ready info) ∨
      (a = .cellAbandon cell ∧ s'.cells cell = .empty) := by
  -- the three steps about a cell write it, and no other
  have hwrite : ∀ (c : CellId) (state : Cell), Function.update s.cells c state cell = s.cells cell ∨
      (c = cell ∧ Function.update s.cells c state cell = state) := by
    intro c state
    by_cases hc : cell = c
    · subst hc
      exact .inr ⟨rfl, Function.update_self _ _ _⟩
    · exact .inl (Function.update_of_ne hc _ _)
  cases a with
  | cell object =>
      simp only [exec] at hexec
      split at hexec <;> cases hexec <;> exact .inl rfl
  | cellEnter c =>
      simp only [exec] at hexec
      split at hexec <;> cases hexec
      · exact .inl rfl
      · rcases hwrite c .busy with h | ⟨rfl, h⟩
        · exact .inl h
        · exact .inr (.inl ⟨rfl, h⟩)
  | cellInit c info =>
      cases hexec
      rcases hwrite c (.ready info) with h | ⟨rfl, h⟩
      · exact .inl h
      · exact .inr (.inr (.inl ⟨info, rfl, h⟩))
  | cellAbandon c =>
      cases hexec
      rcases hwrite c .empty with h | ⟨rfl, h⟩
      · exact .inl h
      · exact .inr (.inr (.inr ⟨rfl, h⟩))
  | cellDrop object =>
      cases hexec
      exact .inl rfl
  | _ =>
      have hsame : Part.cells.Same s s' := exec_frame hexec (by simp [Act.writes])
      exact .inl (congrFun hsame.2 cell)

/-- The cell of an object was its cell before, or has just been made. -/
theorem exec_cellOf_cases (hexec : exec a choice s = some (r, s')) {object : ObjectId}
    {cell : CellId} (h : s'.cellOf object = some cell) :
    s.cellOf object = some cell ∨
      (cell.serial = s.fresh ∧ s'.fresh = s.fresh + 1 ∧ s'.cells = s.cells) := by
  cases a with
  | cell id =>
      simp only [exec] at hexec
      split at hexec <;> cases hexec
      · exact .inl h
      · rcases update_eq_some h with ⟨-, hnew⟩ | hold
        · cases hnew
          exact .inr ⟨rfl, rfl, rfl⟩
        · exact .inl hold
  | cellEnter c =>
      simp only [exec] at hexec
      split at hexec <;> cases hexec <;> exact .inl h
  | cellInit | cellAbandon =>
      cases hexec
      exact .inl h
  | cellDrop id =>
      cases hexec
      rcases update_eq_some h with ⟨-, hnone⟩ | hold
      · cases hnone
      · exact .inl hold
  | _ =>
      have hsame : Part.cells.Same s s' := exec_frame hexec (by simp [Act.writes])
      exact .inl ((congrFun hsame.1 object).symm.trans h)

end Steps

/-! ## The protocol of a burst -/

/-- The event shows that the object has its entry. -/
def shows (object : ObjectId) : Event Act Act.Res → Prop
  | ⟨.indexGet id _, some _⟩ => id = object
  | ⟨.indexPut id _ _, _⟩ => id = object
  | ⟨.cellEnter cell, .ready _⟩ => cell.object = object
  | _ => False

/-- A probe has stored a slice of the object. -/
def owes (object : ObjectId) : Event Act Act.Res → Prop
  | ⟨.storeInsert key _ (.probe _), _⟩ => key.object = object
  | _ => False

def Entered (h : Hist) (object : ObjectId) : Prop := ∃ e ∈ h, shows object e

def Owed (h : Hist) (object : ObjectId) : Prop := ∃ e ∈ h, owes object e

/-- A task was given the cell. -/
def GivenCell (h : Hist) (cell : CellId) : Prop :=
  (⟨.cell cell.object, cell⟩ : Event Act Act.Res) ∈ h

theorem Entered.mono {h h' : Hist} {object : ObjectId} (hsub : h ⊆ h')
    (hobject : Entered h object) : Entered h' object := by
  obtain ⟨e, he, hshows⟩ := hobject
  exact ⟨e, hsub he, hshows⟩

/-- The state of a burst. -/
structure Indexing (cfg : Config) (keys : List CacheKey) (h : Hist) (s : Shared) : Prop
    extends IndexedBut cfg keys (Owed h) s where
  entered : ∀ object, Entered h object → s.index.get object ≠ none
  /-- A cell that was handed out may have been dropped since, and set after that. -/
  held : ∀ cell, GivenCell h cell → cell.serial < s.fresh ∧
    ∀ info, s.cells cell = .ready info → s.index.get cell.object ≠ none

/-- What a task has to know before a step. -/
def MayDo (cfg : Config) (keys : List CacheKey) (h : Hist) : Act → Prop
  | .indexPut id info _ => Named cfg keys id info
  | .indexRemove _ => False
  | .cellEnter cell => GivenCell h cell
  | .cellInit cell _ => GivenCell h cell ∧ Entered h cell.object
  | .cellAbandon cell => GivenCell h cell
  | .storeInsert _ _ (.probe _) => True
  | .storeInsert key _ _ => Entered h key.object
  | .storeFinish flight _ => Entered h flight.key.object
  | _ => True

/-- What it learns about an entry. -/
def Told (cfg : Config) (keys : List CacheKey) : (a : Act) → a.Res → Prop
  | .indexGet id _, found => ∀ info, found = some info → Named cfg keys id info
  | _, _ => True

section Protocol

variable {cfg : Config} {keys : List CacheKey} {h h' : Hist} {a : Act} {choice : Choice}
  {s s' : Shared} {r : a.Res}

theorem MayDo.mono (hsub : h ⊆ h') (ha : MayDo cfg keys h a) : MayDo cfg keys h' a := by
  cases a with
  | cellEnter cell => exact hsub ha
  | cellInit cell info => exact ⟨hsub ha.1, ha.2.mono hsub⟩
  | cellAbandon cell => exact hsub ha
  | storeInsert key value writer =>
      cases writer with
      | probe response => trivial
      | _ => exact Entered.mono hsub ha
  | storeFinish flight result => exact Entered.mono hsub ha
  | _ => exact ha

/-- An entry is replaced and never removed, and what replaces it is under its key. -/
theorem exec_index_cases (ha : MayDo cfg keys h a) (hexec : exec a choice s = some (r, s')) :
    s'.index = s.index ∨ ∃ id info, Named cfg keys id info ∧ s'.index = s.index.put id info := by
  by_cases hwrites : a.writesIndex = false
  · exact .inl (exec_index hwrites hexec)
  · cases a with
    | indexPut id info site =>
        cases hexec
        exact .inr ⟨id, info, ha, rfl⟩
    | indexRemove ids => exact ha.elim
    | _ => exact absurd rfl hwrites

theorem entry_kept (ha : MayDo cfg keys h a) (hexec : exec a choice s = some (r, s'))
    {object : ObjectId} (hobject : s.index.get object ≠ none) : s'.index.get object ≠ none := by
  rcases exec_index_cases ha hexec with hindex | ⟨id, info, -, hindex⟩
  · rwa [hindex]
  · rw [hindex, ObjectIndex.get_put]
    split
    · simp
    · exact hobject

theorem named_kept (ha : MayDo cfg keys h a) (hexec : exec a choice s = some (r, s'))
    (hs : ∀ object info, s.index.get object = some info → Named cfg keys object info) :
    ∀ object info, s'.index.get object = some info → Named cfg keys object info := by
  intro object found hget
  rcases exec_index_cases ha hexec with hindex | ⟨id, info, hinfo, hindex⟩
  · exact hs object found (hindex ▸ hget)
  · rw [hindex, ObjectIndex.get_put] at hget
    split at hget
    · rename_i heq
      cases hget
      exact heq ▸ hinfo
    · exact hs object found hget

/-- What an answer shows is so. -/
theorem entry_of_shows (hs : Indexing cfg keys h s) (ha : MayDo cfg keys h a)
    (hexec : exec a choice s = some (r, s')) {object : ObjectId} (hshows : shows object ⟨a, r⟩) :
    s'.index.get object ≠ none := by
  cases a with
  | indexGet id site =>
      cases hexec
      cases hget : s.index.get id with
      | none =>
          rw [hget] at hshows
          exact hshows.elim
      | some info =>
          rw [hget] at hshows
          obtain rfl : id = object := hshows
          simp [hget]
  | indexPut id info site =>
      cases hexec
      obtain rfl : id = object := hshows
      simp
  | cellEnter cell =>
      refine entry_kept ha hexec ?_
      simp only [exec] at hexec
      split at hexec <;> cases hexec
      · next info hready =>
          obtain rfl : cell.object = object := hshows
          exact (hs.held cell ha).2 info hready
      · exact hshows.elim
  | _ => exact hshows.elim

theorem told_of_exec (hs : Indexing cfg keys h s) (hexec : exec a choice s = some (r, s')) :
    Told cfg keys a r := by
  cases a with
  | indexGet id site =>
      cases hexec
      exact hs.named id
  | _ => trivial

theorem cellOf_of_exec {object : ObjectId} {cell : CellId}
    (hexec : exec (.cell object) choice s = some (cell, s')) : s'.cellOf object = some cell := by
  simp only [exec] at hexec
  split at hexec <;> cases hexec
  · assumption
  · exact Function.update_self _ _ _

/-- **One step of a burst**, whichever task makes it. -/
theorem indexing_step (hs : Indexing cfg keys h s) (ha : MayDo cfg keys h a)
    (hexec : exec a choice s = some (r, s')) :
    Indexing cfg keys (⟨a, r⟩ :: h) s' ∧ a.Named r ∧ Told cfg keys a r := by
  obtain ⟨hlabelled, hnamed⟩ := hs.labelled.exec hexec
  have hknown : ∀ {object}, Entered h object → s'.index.get object ≠ none :=
    fun hobject => entry_kept ha hexec (hs.entered _ hobject)
  have hentered : ∀ object, Entered (⟨a, r⟩ :: h) object → s'.index.get object ≠ none := by
    rintro object ⟨e, he, hshows⟩
    rcases List.mem_cons.mp he with rfl | hold
    · exact entry_of_shows hs ha hexec hshows
    · exact hknown ⟨e, hold, hshows⟩
  -- a cell is set only by a task that knows of the entry
  have hready : ∀ cell info, s'.cells cell = .ready info →
      s.cells cell = .ready info ∨ Entered h cell.object := by
    intro cell info hcell
    rcases exec_cells_cases hexec cell with hsame | ⟨-, hbusy⟩ | ⟨_, rfl, -⟩ | ⟨-, hempty⟩
    · exact .inl (hsame ▸ hcell)
    · rw [hbusy] at hcell
      cases hcell
    · exact .inr ha.2
    · rw [hempty] at hcell
      cases hcell
  have hcells : ∀ object cell info, s'.cellOf object = some cell → s'.cells cell = .ready info →
      s'.index.get object ≠ none := by
    intro object cell info hcell hset
    rcases exec_cellOf_cases hexec hcell with hold | ⟨hserial, -, hsame⟩
    · rcases hready cell info hset with hset | hobject
      · exact entry_kept ha hexec (hs.cells object cell info hold hset)
      · exact hknown (hs.labelled.cell object cell hold ▸ hobject)
    · rw [hsame, hs.unused cell hserial.ge] at hset
      cases hset
  have hmade : ∀ object cell, s'.cellOf object = some cell → cell.serial < s'.fresh := by
    intro object cell hcell
    rcases exec_cellOf_cases hexec hcell with hold | ⟨hserial, hfresh, -⟩
    · exact lt_of_lt_of_le (hs.made object cell hold) (exec_fresh hexec)
    · omega
  refine ⟨{ named := named_kept ha hexec hs.named, stored := ?_, cells := hcells, made := hmade,
            unused := ?_, labelled := hlabelled, entered := hentered, held := ?_ },
    hnamed, told_of_exec hs hexec⟩
  · intro key value hstored
    rcases exec_store_cases hexec hstored with hold | ⟨writer, rfl⟩ | ⟨flight, result, rfl, rfl⟩
    · rcases hs.stored key value hold with hentry | ⟨e, he, howes⟩
      · exact .inl (entry_kept ha hexec hentry)
      · exact .inr ⟨e, List.mem_cons_of_mem _ he, howes⟩
    · cases writer with
      | probe response => exact .inr ⟨_, List.mem_cons_self, rfl⟩
      | _ => exact .inl (hknown ha)
    · exact .inl (hknown ha)
  · intro cell hle
    have hnew : ¬ GivenCell h cell := fun hheld =>
      absurd (hs.held cell hheld).1 (Nat.not_lt.mpr (le_trans (exec_fresh hexec) hle))
    rcases exec_cells_cases hexec cell with hsame | ⟨rfl, -⟩ | ⟨info, rfl, -⟩ | ⟨rfl, -⟩
    · rw [hsame]
      exact hs.unused cell (le_trans (exec_fresh hexec) hle)
    · exact absurd ha hnew
    · exact absurd ha.1 hnew
    · exact absurd ha hnew
  · intro cell hheld
    rcases List.mem_cons.mp hheld with hgiven | hold
    · cases hgiven
      have hcell := cellOf_of_exec hexec
      exact ⟨hmade _ _ hcell, fun info => hcells _ _ info hcell⟩
    · refine ⟨lt_of_lt_of_le (hs.held cell hold).1 (exec_fresh hexec), fun info hset => ?_⟩
      rcases hready cell info hset with hset | hobject
      · exact entry_kept ha hexec ((hs.held cell hold).2 info hset)
      · exact hknown hobject

end Protocol

/-- The protocol the tasks of a burst follow. -/
def indexing (cfg : Config) (keys : List CacheKey) : Protocol exec where
  inv := Indexing cfg keys
  pre := MayDo cfg keys
  post := fun _ a r => a.Named r ∧ Told cfg keys a r
  admits := fun _ => True
  pre_mono := MayDo.mono
  step := fun hs ha _ hexec => indexing_step hs ha hexec

/-! ## The tasks of a request -/

section Tasks

open Protocol

variable {cfg : Config} {keys : List CacheKey} {h : Hist} {object : ObjectId} {url : String}
  {headers : HeaderMap}

theorem wp_touch_indexing (id : ObjectId) :
    (indexing cfg keys).wp (touch id) (fun _ _ => True) h := by
  refine wp_perform_bind trivial fun h₁ found _ _ hfound => ?_
  cases found with
  | none => trivial
  | some info =>
      refine wp_perform_bind trivial fun h₂ now _ _ _ => ?_
      split
      · trivial
      · exact wp_perform_bind (hfound.2 info rfl) fun _ _ _ _ _ => trivial

theorem wp_fetchFailed_indexing (plan : Plan) (failure : StoreError × Bool) :
    (indexing cfg keys).wp (fetchFailed plan url failure) (fun _ _ => True) h := by
  unfold fetchFailed
  split
  · refine wp_bind_of (wp_bind_of (M := fun _ _ => True) ?_ fun _ _ _ _ =>
      wp_perform_bind trivial fun _ _ _ _ _ => trivial) fun _ _ _ _ => trivial
    refine wp_perform_bind trivial fun h₁ found _ _ hfound => ?_
    cases found with
    | none => trivial
    | some info => exact wp_perform_bind (hfound.2 info rfl) fun _ _ _ _ _ => trivial
  · trivial

theorem mayDo_of_network {a : Act} (ha : a.network = true) : MayDo cfg keys h a := by
  cases a <;> trivial

theorem mayDo_of_looks {a : Act} (ha : a.looks = true) : MayDo cfg keys h a := by
  cases a <;> trivial

theorem mayDo_of_fetches {a : Act} (hentered : Entered h object) (hown : a.Own object url headers)
    (ha : a.fetches = true) : MayDo cfg keys h a := by
  cases a with
  | storeInsert key value writer =>
      cases writer with
      | fill =>
          have hkey : key.object = object := hown
          show Entered h key.object
          rwa [hkey]
      | _ => cases ha
  | storeFinish flight result =>
      have hkey : flight.key.object = object := hown
      rwa [MayDo, hkey]
  | _ => trivial

/-- A task that fetches slices of an object with an entry. -/
theorem wp_fetching {α : Type} {p : Task α} (hentered : Entered h object)
    (hown : p.Within (Act.Own object url headers) Act.Named)
    (hfetches : p.All fun a => a.fetches = true) :
    (indexing cfg keys).wp p (fun _ _ => True) h := by
  induction p generalizing h with
  | ret value => trivial
  | act a next ih =>
      exact ⟨mayDo_of_fetches hentered hown.1 hfetches.1, fun h' r hsub _ _ hpost =>
        ih r (hentered.mono hsub) (hown.2 r hpost.1) (hfetches.2 r)⟩

theorem wp_slice_indexing {plan : Plan} (hentered : Entered h plan.object) (index : ℕ) :
    (indexing cfg keys).wp (slice cfg plan url headers index) (fun _ _ => True) h := by
  unfold slice
  dsimp only
  split
  · refine wp_bind_of (wp_fetching hentered (ensureFilled_own cfg rfl index)
      ((ensureFilled_fills cfg plan url headers index).imp fun _ => Act.fetches_of_fills))
      fun h₁ result _ _ => ?_
    cases result with
    | error e => trivial
    | ok _ =>
        refine wp_perform_bind trivial fun _ found _ _ _ => ?_
        split <;> trivial
  · refine wp_bind_of (wp_fetching hentered (getOrFetch_own rfl (fetchSlice_own cfg plan index))
      (getOrFetch_fetches _ (fetchSlice_fetches cfg plan url headers index)))
      fun h₁ result hsub _ => ?_
    cases result with
    | ok value => trivial
    | error failure =>
        exact wp_bind_of (wp_fetchFailed_indexing plan failure) fun h₂ e hsub' _ =>
          wp_fetching (hentered.mono (List.Subset.trans hsub hsub'))
            (@staleOr_own plan.object url headers cfg _ rfl e) (staleOr_fetches cfg _ e)

/-- A probe that succeeds has written the object's entry. -/
theorem wp_probe_indexing {key : CacheKey} (hkey : key ∈ keys) (hobject : cfg.objectId key = object)
    (index : ℕ) : (indexing cfg keys).wp (probe cfg key object url headers index)
      (fun h result => ∀ info, result = .ok info → Entered h object) h := by
  have hfetch : (indexing cfg keys).wp (fetchRange cfg.client (.probe object index) url headers
      (index * cfg.sliceSize) (index * cfg.sliceSize + cfg.sliceSize - 1)) (fun _ _ => True) h :=
    wp_of_all ((fetchRange_network _ _ _ _ _ _).imp fun a ha _ => mayDo_of_network ha) h
  refine wp_bind_of hfetch fun h₁ answer _ _ => ?_
  cases answer with
  | error e => exact fun info hok => by cases hok
  | ok response =>
      cases hshape : shape url response with
      | error e =>
          simp only [hshape]
          exact fun info hok => by cases hok
      | ok parts =>
          simp only [hshape]
          refine wp_perform_bind trivial fun h₂ previous _ _ _ =>
            wp_perform_bind trivial fun h₃ now _ _ _ => ?_
          have hput : ∀ (h : Hist) (info : ObjectMeta), info.key = key.key →
              (indexing cfg keys).wp (do
                let _ ← ask (.indexPut object info (.probe previous))
                return (.ok info : Except OrchestratorError ObjectMeta))
                (fun h result => ∀ info, result = .ok info → Entered h object) h :=
            fun h info hinfo => wp_perform_bind ⟨key, hkey, hobject, hinfo⟩
              fun h' _ _ hmem _ _ _ => ⟨_, hmem, rfl⟩
          split
          · exact hput _ _ rfl
          · exact wp_perform_bind trivial fun _ _ _ _ _ => hput _ _ rfl

/-- Metadata from a cell: the object has its entry. -/
theorem wp_coldMetadata_indexing {key : CacheKey} (hkey : key ∈ keys)
    (hobject : cfg.objectId key = object) (index : ℕ) :
    (indexing cfg keys).wp (coldMetadata cfg key object url headers index)
      (fun h result => ∀ found, result = .ok found → Entered h object) h := by
  refine wp_perform_bind trivial fun h₁ cell _ hmem hcell => ?_
  have hcell : cell.object = object := hcell.1
  have hgiven : GivenCell h₁ cell := by rwa [GivenCell, hcell]
  refine wp_perform_bind trivial fun h₂ initialized hsub₂ _ _ => ?_
  refine wp_perform_bind (hsub₂ hgiven) fun h₃ entry hsub₃ hentry _ => ?_
  cases entry with
  | ready info => exact fun _ _ => ⟨_, hentry, hcell⟩
  | claimed =>
      have hheld : GivenCell h₃ cell := hsub₃ (hsub₂ hgiven)
      refine wp_bind_of (wp_probe_indexing hkey hobject index) fun h₄ result hsub₄ hresult => ?_
      cases result with
      | ok info =>
          have hentered := hresult info rfl
          exact wp_perform_bind ⟨hsub₄ hheld, hcell.symm ▸ hentered⟩ fun h₅ _ hsub₅ _ _ _ _ =>
            hentered.mono hsub₅
      | error e => exact wp_perform_bind (hsub₄ hheld) fun _ _ _ _ _ _ hok => by cases hok

theorem wp_metadata_indexing {key : CacheKey} (hkey : key ∈ keys)
    (hobject : cfg.objectId key = object) (index : ℕ) :
    (indexing cfg keys).wp (metadata cfg key object url headers index)
      (fun h result => ∀ found, result = .ok found → Entered h object) h := by
  refine wp_perform_bind trivial fun h₁ found _ hmem _ => ?_
  cases found with
  | none => exact wp_coldMetadata_indexing hkey hobject index
  | some info =>
      dsimp only
      split
      · exact wp_bind_of (wp_touch_indexing object) fun h₂ _ hsub _ _ _ =>
          ⟨_, hsub hmem, rfl⟩
      · exact wp_coldMetadata_indexing hkey hobject index

/-- A plan that is returned is of an object with an entry. -/
theorem wp_plan_indexing {key : CacheKey} (hkey : key ∈ keys) (rawRange : Option String) :
    (indexing cfg keys).wp (plan cfg key url headers rawRange)
      (fun h result => ∀ chosen, result = .ok chosen → Entered h chosen.object) h := by
  refine wp_bind_of (wp_metadata_indexing hkey rfl _) fun h₁ result _ hresult => ?_
  cases result with
  | error e => exact fun chosen hok => by cases hok
  | ok found =>
      dsimp only
      split
      · exact fun chosen hok => by cases hok
      · have hlooks := classifyPlan_looks cfg (cfg.objectId key) found.1 ‹_› found.2
          (probeIndexOf cfg (requestedSpec rawRange))
        refine wp_bind_of (wp_of_all (hlooks.imp fun a ha _ => mayDo_of_looks ha) h₁)
          fun h₂ status hsub _ chosen hok => ?_
        cases hok
        exact (hresult found rfl).mono hsub

end Tasks

/-! ## What is owed is paid -/

section Settling

variable {α β : Type}

/-- The task is about to write the object's entry. -/
def Pays (object : ObjectId) : Task α → Prop
  | .act (.indexPut id _ _) _ => id = object
  | _ => False

/-- Whenever the task has stored a slice ahead of its entry, it is about to write the entry. -/
def Settles : Task α → Prop
  | .ret _ => True
  | .act a next => ∀ r, (∀ object, owes object ⟨a, r⟩ → Pays object (next r)) ∧ Settles (next r)

theorem Pays.bind {object : ObjectId} {p : Task α} (hp : Pays object p) (f : α → Task β) :
    Pays object (p >>= f) := by
  cases p with
  | ret value => exact hp.elim
  | act a next => cases a <;> exact hp

theorem Settles.bind {p : Task α} {f : α → Task β} (hp : Settles p)
    (hf : ∀ value, Settles (f value)) : Settles (p >>= f) := by
  induction p with
  | ret value => exact hf value
  | act a next ih =>
      exact fun r => ⟨fun object howes => ((hp r).1 object howes).bind f, ih r (hp r).2⟩

theorem Settles.perform_bind {a : Act} {f : a.Res → Task α} (ha : ∀ object r, ¬ owes object ⟨a, r⟩)
    (hf : ∀ r, Settles (f r)) : Settles (ask a >>= f) :=
  fun r => ⟨fun object howes => absurd howes (ha object r), hf r⟩

/-- The steps that store no slice ahead of its entry. -/
theorem Settles.of_all {p : Task α} (hp : p.All fun a => ∀ object r, ¬ owes object ⟨a, r⟩) :
    Settles p := by
  induction p with
  | ret value => trivial
  | act a next ih =>
      exact fun r => ⟨fun object howes => absurd howes (hp.1 object r), ih r (hp.2 r)⟩

theorem settles_slice (cfg : Config) (plan : Plan) (url : String) (headers : HeaderMap)
    (index : ℕ) : Settles (slice cfg plan url headers index) := by
  refine .of_all ((slice_fetches cfg plan url headers index).imp ?_)
  intro a ha object r howes
  cases a with
  | storeInsert key value writer =>
      cases writer with
      | probe response => rcases ha with ha | ha <;> cases ha
      | _ => exact howes
  | _ => exact howes

theorem settles_touch (id : ObjectId) : Settles (touch id) := by
  refine .perform_bind (fun _ _ h => h) fun found => ?_
  cases found with
  | none => trivial
  | some info =>
      refine .perform_bind (fun _ _ h => h) fun now => ?_
      split
      · trivial
      · exact .perform_bind (fun _ _ h => h) fun _ => trivial

theorem settles_probe (cfg : Config) (key : CacheKey) (object : ObjectId) (url : String)
    (headers : HeaderMap) (index : ℕ) : Settles (probe cfg key object url headers index) := by
  refine .bind (.of_all ((fetchRange_network _ _ _ _ _ _).imp fun a ha => ?_)) fun answer => ?_
  · cases a <;> first | exact fun _ _ h => h | cases ha
  cases answer with
  | error e => trivial
  | ok response =>
      dsimp only
      split
      · trivial
      · refine .perform_bind (fun _ _ h => h) fun previous =>
          .perform_bind (fun _ _ h => h) fun now => ?_
        split
        · exact .perform_bind (fun _ _ h => h) fun _ => trivial
        · -- the slice, and the entry right after it
          exact fun _ => ⟨fun _ howes => howes, .perform_bind (fun _ _ h => h) fun _ => trivial⟩

theorem settles_coldMetadata (cfg : Config) (key : CacheKey) (object : ObjectId) (url : String)
    (headers : HeaderMap) (index : ℕ) :
    Settles (coldMetadata cfg key object url headers index) := by
  refine .perform_bind (fun _ _ h => h) fun cell => .perform_bind (fun _ _ h => h) fun _ =>
    .perform_bind (fun _ _ h => h) fun entry => ?_
  cases entry with
  | ready info => trivial
  | claimed =>
      refine .bind (settles_probe cfg key object url headers index) fun result => ?_
      cases result with
      | ok info => exact .perform_bind (fun _ _ h => h) fun _ => trivial
      | error e => exact .perform_bind (fun _ _ h => h) fun _ => trivial

theorem settles_plan (cfg : Config) (key : CacheKey) (url : String) (headers : HeaderMap)
    (rawRange : Option String) : Settles (plan cfg key url headers rawRange) := by
  refine .bind (.perform_bind (fun _ _ h => h) fun found => ?_) fun result => ?_
  · cases found with
    | none => exact settles_coldMetadata cfg key _ url headers _
    | some info =>
        dsimp only
        split
        · exact .bind (settles_touch _) fun _ => trivial
        · exact settles_coldMetadata cfg key _ url headers _
  cases result with
  | error e => trivial
  | ok found =>
      dsimp only
      split
      · trivial
      · refine .bind (.of_all ((classifyPlan_looks _ _ _ _ _ _).imp fun a ha => ?_))
          fun _ => trivial
        cases a <;> first | exact fun _ _ h => h | cases ha

end Settling

/-! ## Bursts -/

/-- The jobs of requests for the keys. -/
def Job.OfRequest (keys : List CacheKey) : Job → Prop
  | .plan key _ _ _ => key ∈ keys
  | .slice _ _ _ _ => True
  | _ => False

def Process.Step.OfRequest (keys : List CacheKey) : Process.Step → Prop
  | .spawn job => job.OfRequest keys
  | .task _ _ => True
  | _ => False

/-- Requests have brought the process from a state in which nothing ran to `p`. -/
def Busy (cfg : Config) (keys : List CacheKey) (s : Shared) (p : Process) : Prop :=
  ∃ file steps, (∀ st ∈ steps, Process.Step.OfRequest keys st) ∧
    Process.run { cfg := cfg, file := file, pool := { shared := s, hist := [], threads := [] } }
      steps = some p

/-- Any number of requests at once, until the last of their tasks has returned. -/
def Burst (cfg : Config) (keys : List CacheKey) (s s' : Shared) : Prop :=
  ∃ p, Busy cfg keys s p ∧ (∀ thread ∈ p.pool.threads, ∃ outcome, thread = .ret outcome) ∧
    p.pool.shared = s'

/-- A plan that was returned is of an object with an entry. -/
def PlanEntered (h : Hist) : Outcome → Prop
  | .planned (.ok plan) => Entered h plan.object
  | _ => True

theorem planEntered_stable : Protocol.Stable PlanEntered := by
  intro h h' outcome hsub hplan
  cases outcome with
  | planned result =>
      cases result with
      | error e => trivial
      | ok plan => exact Entered.mono hsub hplan
  | _ => trivial

/-- What holds at every moment of a burst. -/
structure Bursting (cfg : Config) (keys : List CacheKey) (p : Process) : Prop where
  cfg_eq : p.cfg = cfg
  holds : p.pool.Holds (indexing cfg keys) PlanEntered
  settles : ∀ thread ∈ p.pool.threads, Settles thread
  /-- What is owed was paid, or a task is about to. -/
  debts : ∀ object, Owed p.pool.hist object → Entered p.pool.hist object ∨
    ∃ thread ∈ p.pool.threads, Pays object thread

section Bursts

variable {cfg : Config} {keys : List CacheKey} {p p' : Process} {s s' : Shared}

theorem Bursting.spawn (hp : Bursting cfg keys p) {job : Job} (hjob : job.OfRequest keys)
    (hallows : p.allows job = true) :
    Bursting cfg keys { p with pool := p.pool.spawn (job.task p.cfg) } := by
  have htask : (indexing cfg keys).wp (job.task p.cfg) PlanEntered p.pool.hist ∧
      Settles (job.task p.cfg) := by
    rw [hp.cfg_eq]
    cases job with
    | plan key url headers rawRange =>
        refine ⟨Protocol.wp_bind_of (wp_plan_indexing hjob rawRange) fun h result _ hresult => ?_,
          (settles_plan cfg key url headers rawRange).bind fun _ => trivial⟩
        cases result with
        | error e => trivial
        | ok plan => exact hresult plan rfl
    | slice plan url headers index =>
        rw [Process.allows, Bool.and_eq_true, Bool.and_eq_true, decide_eq_true_eq] at hallows
        exact ⟨Protocol.wp_bind_of (wp_slice_indexing (hp.holds.result hallows.1.1) index)
          fun _ _ _ _ => trivial, (settles_slice cfg plan url headers index).bind fun _ => trivial⟩
    | _ => exact hjob.elim
  refine ⟨hp.cfg_eq, hp.holds.spawn htask.1, fun thread hthread => ?_, fun object howed => ?_⟩
  · rcases List.mem_append.mp hthread with hold | hnew
    · exact hp.settles thread hold
    · exact List.mem_singleton.mp hnew ▸ htask.2
  · rcases hp.debts object howed with hentered | ⟨thread, hthread, hpays⟩
    · exact .inl hentered
    · exact .inr ⟨thread, List.mem_append_left _ hthread, hpays⟩

theorem Bursting.sched (hp : Bursting cfg keys p) {tid : ℕ} {choice : Choice}
    {pool : Pool Act Act.Res Shared Outcome} (hsched : p.pool.sched exec tid choice = some pool) :
    Bursting cfg keys { p with pool := pool } := by
  have hholds := hp.holds.sched planEntered_stable hsched fun _ _ => trivial
  obtain ⟨a, next, r, s', hthread, hexec, rfl⟩ := Pool.sched_eq_some_iff.mp hsched
  have hmoved := hp.settles _ (List.mem_of_getElem? hthread) r
  have htid : tid < p.pool.threads.length := (List.getElem?_eq_some_iff.mp hthread).1
  have hnext : next r ∈ p.pool.threads.set tid (next r) := List.mem_set htid _
  refine ⟨hp.cfg_eq, hholds, fun thread hmem => ?_, fun object howed => ?_⟩
  · rcases List.mem_or_eq_of_mem_set hmem with hold | rfl
    · exact hp.settles thread hold
    · exact hmoved.2
  · obtain ⟨e, he, howes⟩ := howed
    rcases List.mem_cons.mp he with rfl | hold
    · exact .inr ⟨next r, hnext, hmoved.1 object howes⟩
    · rcases hp.debts object ⟨e, hold, howes⟩ with hentered | ⟨thread, hmem, hpays⟩
      · exact .inl (hentered.mono (List.subset_cons_self _ _))
      · obtain ⟨i, hi⟩ := List.mem_iff_getElem?.mp hmem
        by_cases htid : tid = i
        · -- the task that was about to write the entry has moved
          subst htid
          obtain rfl : thread = .act a next := Option.some.inj (hi.symm.trans hthread)
          refine .inl ⟨_, List.mem_cons_self, ?_⟩
          cases a with
          | indexPut id info site => exact hpays
          | _ => exact hpays.elim
        · refine .inr ⟨thread, List.mem_iff_getElem?.mpr ⟨i, ?_⟩, hpays⟩
          rw [List.getElem?_set_ne htid]
          exact hi

theorem Bursting.step (hp : Bursting cfg keys p) {st : Process.Step} (hst : st.OfRequest keys)
    (hstep : p.step st = some p') : Bursting cfg keys p' := by
  cases st with
  | spawn job =>
      simp only [Process.step] at hstep
      split at hstep
      · next hallows =>
          cases hstep
          exact hp.spawn hst hallows
      · cases hstep
  | task tid choice =>
      simp only [Process.step, Option.map_eq_some_iff] at hstep
      obtain ⟨pool, hsched, rfl⟩ := hstep
      exact hp.sched hsched
  | _ => exact hst.elim

theorem bursting_of_busy (hs : Indexed cfg keys s) (hbusy : Busy cfg keys s p) :
    Bursting cfg keys p := by
  obtain ⟨file, steps, hsteps, hrun⟩ := hbusy
  refine Process.run_induct_hist (H := fun _ => True) (C := Process.Step.OfRequest keys)
    (fun q st q' hq hst hstep _ => hq.step hst hstep) ?_ hsteps hrun fun _ _ => trivial
  have hinv : Indexing cfg keys [] s :=
    { hs with
      stored := fun key value hstored => .inl (hs.entry hstored)
      entered := fun object ⟨e, he, _⟩ => by cases he
      held := fun cell hgiven => by cases hgiven }
  refine ⟨rfl, ⟨hinv, fun thread hthread => ?_⟩, fun thread hthread => ?_, fun object howed => ?_⟩
  · cases hthread
  · cases hthread
  · obtain ⟨e, he, -⟩ := howed
    cases he

/-- **At every moment of a burst** a stored slice has its object's entry, or a task is about to
write it. -/
theorem busy_indexed (hs : Indexed cfg keys s) (hbusy : Busy cfg keys s p) {key : SliceKey}
    {value : SliceValue} (hstored : p.pool.shared.store key = some value) :
    p.pool.shared.index.get key.object ≠ none ∨
      ∃ thread ∈ p.pool.threads, Pays key.object thread := by
  have hp := bursting_of_busy hs hbusy
  rcases hp.holds.inv.stored key value hstored with hentry | howed
  · exact .inl hentry
  · exact (hp.debts _ howed).imp_left (hp.holds.inv.entered _)

/-- **Requests keep the index complete.** -/
theorem burst_indexed (hs : Indexed cfg keys s) (hburst : Burst cfg keys s s') :
    Indexed cfg keys s' := by
  obtain ⟨p, hbusy, hreturned, rfl⟩ := hburst
  have hinv := (bursting_of_busy hs hbusy).holds.inv
  refine { hinv with stored := fun key value hstored => .inl ?_ }
  refine (busy_indexed hs hbusy hstored).resolve_right ?_
  rintro ⟨thread, hthread, hpays⟩
  obtain ⟨outcome, rfl⟩ := hreturned thread hthread
  exact hpays

end Bursts

end Cachic
