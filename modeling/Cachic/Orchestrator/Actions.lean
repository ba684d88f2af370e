import Cachic.Lib.Interleaving
import Cachic.Range
import Cachic.Validators
import Cachic.Upstream
import Cachic.Store.Index

/-!
# What the orchestrator shares, and its atomic steps

Every request runs as its own task.  The tasks share the object index, the slice
store, the map of metadata cells, the store's in-flight fetches and the registry
of object fills, and each reaches an origin over the network.  `Act` lists the
steps that are atomic in the source: one database transaction, one operation
under a lock, one operation of the store, one request answered.  `exec` is their
meaning on `Shared`; what the step does not determine (the clock, an origin's
answer, an eviction) is a `Choice`.

A cell, a flight and a fill are heap objects that outlive their map entry, so each
has an identity of its own, which names the object or slice it was made for.

Some actions carry a note of who performs them (`ReadSite`, `WriteSite`,
`Purpose`, `Writer`).  `exec` never looks at it; it makes the history of a run
readable, so that a property of the run can say what a write was derived from.

## What stands for other people's code

* The slice store is foyer.  Of it we take: a read may find a slice gone (`Choice.evicted`) or
  fail; concurrent fetches of one slice are one flight; an insert ends a flight of its key, and
  whoever waits, its leader included, gets what was inserted; what a fetch brings after its flight
  has ended may be kept or dropped (`landLate`).  When a slice is evicted is any choice, so no
  result here rests on a policy.
* The index is redb: a transaction is one step, and none of them fails.
* A metadata cell is a tokio `OnceCell`: one task at a time is inside `get_or_try_init`, and a
  task that fails leaves the cell empty.
* An origin, through reqwest, answers anything (`Choice.reply`).  What a theorem needs of it is a
  hypothesis of that theorem, on the answers in the history.
-/

namespace Cachic

open Range

/-! ## Errors -/

/-- Why the fetch of one slice failed. -/
inductive FetchFailure
  | upstream (e : UpstreamError)
  | changed (expected found : Validators)
  | short (index expected actual : ℕ)
  deriving DecidableEq, Repr

/-- A failure of the slice store: a fetch it was running, or its own I/O. -/
inductive StoreError
  | fetch (cause : FetchFailure)
  | io (text : String)
  deriving DecidableEq, Repr

/-! ## Shared objects -/

/-- Identity of one metadata cell. -/
structure CellId where
  object : ObjectId
  serial : ℕ
  deriving DecidableEq, Repr

/-- Identity of one in-flight fetch of the store. -/
structure FlightId where
  key : SliceKey
  serial : ℕ
  deriving DecidableEq, Repr

/-- Identity of one object fill. -/
structure FillId where
  object : ObjectId
  serial : ℕ
  deriving DecidableEq, Repr

/-- A once-only metadata cell: nobody has set it, somebody is trying to, or it is
set for good. -/
inductive Cell
  | empty
  | busy
  | ready (info : ObjectMeta)
  deriving DecidableEq, Repr

inductive Flight
  | running
  | done (result : Except StoreError SliceValue)

/-- How far a fill has progressed, or how it failed. -/
inductive Progress
  | ready (count : ℕ)
  | complete (count : ℕ)
  | failed (reason : String)
  deriving DecidableEq, Repr

/-- Whether slice `index` is readable. -/
def Progress.covers (index : ℕ) : Progress → Bool
  | .ready count => index < count
  | .complete count => index < count
  | .failed _ => false

/-- What `wait_for` returns once the fill has got far enough to say; `none` while
it has not. -/
def Progress.verdict (index : ℕ) (progress : Progress) : Option (Except String Unit) :=
  if progress.covers index then some (.ok ())
  else
    match progress with
    | .failed reason => some (.error reason)
    | .complete count =>
        some (.error s!"fill completed with {count} slices; slice {index} was never produced")
    | .ready _ => none

/-! ## Actions -/

/-- What a probe has learnt when it comes to read the object's generation. -/
structure Probed where
  key : String
  sliceSize : ℕ
  index : ℕ
  response : UpstreamResponse
  totalLen : ℕ
  noRanges : Bool
  deriving DecidableEq, Repr

/-- The index entry a probe writes. -/
def Probed.info (probed : Probed) (generation now : ℕ) : ObjectMeta where
  key := probed.key
  totalLen := probed.totalLen
  generation := generation
  etag := probed.response.header "etag"
  lastModified := probed.response.header "last-modified"
  contentType := probed.response.header "content-type"
  noRanges := probed.noRanges
  created := now
  lastSeen := now
  stale := false

/-- The generation a probe continues with, from what it read in the index. -/
def generationOf (previous : Option ObjectMeta) : ℕ :=
  (previous.map ObjectMeta.generation).getD 0

/-- Who reads the index. -/
inductive ReadSite
  | metadata
  | touch
  | invalidate
  | probe (probed : Probed)
  | purge
  deriving DecidableEq, Repr

/-- Who writes the index, and the entry the write was computed from. -/
inductive WriteSite
  | touch (read : ObjectMeta)
  | invalidate (read : ObjectMeta)
  | probe (read : Option ObjectMeta)
  | direct
  deriving DecidableEq, Repr

/-- What a request to an origin is for.  A fill names the header its slices will be
stored under. -/
inductive Purpose
  | probe (object : ObjectId) (index : ℕ)
  | slice (key : SliceKey)
  | fill (object : ObjectId) (header : SliceHeader)
  deriving DecidableEq, Repr

/-- Who stores a slice, and the response its bytes are from. -/
inductive Writer
  | probe (response : UpstreamResponse)
  | fetch (response : UpstreamResponse)
  | fill
  deriving DecidableEq, Repr

/-- A request to an origin: its URL, the byte range asked for, both ends included,
and the forwarded headers. -/
structure Request where
  url : String
  range : Option (ℕ × ℕ)
  headers : HeaderMap
  deriving DecidableEq, Repr

/-- The scans of the index. -/
inductive Scan
  | keyStarts (start : String)
  | seenBefore (cutoff : ℕ)
  deriving DecidableEq, Repr

/-- The ids a scan finds. -/
def Scan.find (index : ObjectIndex) : Scan → List ObjectId
  | .keyStarts start => index.idsWithPrefix start
  | .seenBefore cutoff => index.idsWhere fun info => info.lastSeen < cutoff

/-- What entering a metadata cell found: it was set, or it is now the caller's to
set. -/
inductive CellEntry
  | ready (info : ObjectMeta)
  | claimed
  deriving DecidableEq, Repr

/-- What asking the store for a slice to read or fetch found. -/
inductive StoreEntry
  | hit (value : SliceValue)
  | lead (flight : FlightId)
  | join (flight : FlightId)
  | failed (e : StoreError)
  deriving DecidableEq, Repr

/-- Whether the caller owns the fill or waits for someone else's. -/
inductive Role
  | filler (fill : FillId)
  | subscriber (fill : FillId)
  deriving DecidableEq, Repr

/-- The atomic steps. -/
inductive Act
  | now
  | indexGet (id : ObjectId) (site : ReadSite)
  | indexPut (id : ObjectId) (info : ObjectMeta) (site : WriteSite)
  | indexScan (scan : Scan)
  | indexRemove (ids : List ObjectId)
  | cell (object : ObjectId)
  | cellInitialized (cell : CellId)
  | cellEnter (cell : CellId)
  | cellInit (cell : CellId) (info : ObjectMeta)
  | cellAbandon (cell : CellId)
  | cellDrop (object : ObjectId)
  | resolve (url : String)
  | send (purpose : Purpose) (request : Request)
  | storeContains (key : SliceKey)
  | storeGet (key : SliceKey)
  | storeInsert (key : SliceKey) (value : SliceValue) (writer : Writer)
  | storeRemove (key : SliceKey)
  | storeEnter (key : SliceKey)
  | storeFinish (flight : FlightId) (result : Except FetchFailure (SliceValue × UpstreamResponse))
  | storeAwait (flight : FlightId)
  | fillClaim (object : ObjectId)
  | fillRelease (object : ObjectId)
  | fillPublish (fill : FillId) (progress : Progress)
  | fillWait (fill : FillId) (index : ℕ)

/-- What each step answers. -/
abbrev Act.Res : Act → Type
  | .now => ℕ
  | .indexGet _ _ => Option ObjectMeta
  -- the entry that was replaced
  | .indexPut _ _ _ => Option ObjectMeta
  | .indexScan _ => List ObjectId
  | .indexRemove _ => Unit
  | .cell _ => CellId
  | .cellInitialized _ => Bool
  | .cellEnter _ => CellEntry
  | .cellInit _ _ => Unit
  | .cellAbandon _ => Unit
  | .cellDrop _ => Unit
  | .resolve _ => Except UpstreamError Unit
  | .send _ _ => Except TransportError RawResponse
  | .storeContains _ => Bool
  | .storeGet _ => Except StoreError (Option SliceValue)
  | .storeInsert _ _ _ => Unit
  | .storeRemove _ => Unit
  | .storeEnter _ => StoreEntry
  -- what the flight ended with
  | .storeFinish _ _ => Except StoreError SliceValue
  | .storeAwait _ => Except StoreError SliceValue
  | .fillClaim _ => Role
  | .fillRelease _ => Unit
  | .fillPublish _ _ => Unit
  | .fillWait _ _ => Except String Unit

/-- What a step leaves open. -/
inductive Choice
  | go
  | time (now : ℕ)
  | resolved (answer : Except UpstreamError Unit)
  | reply (answer : Except TransportError RawResponse)
  | evicted
  | storeFails (text : String)
  /-- a fetch that comes after an insert of its slice replaces what was inserted -/
  | replaces

/-! ## The shared state and the meaning of the steps -/

/-- Everything the tasks of one process share.  The index and the store survive a
restart; the rest is memory. -/
structure Shared where
  index : ObjectIndex
  store : SliceKey → Option SliceValue
  cellOf : ObjectId → Option CellId
  cells : CellId → Cell
  flightOf : SliceKey → Option FlightId
  flights : FlightId → Flight
  fillOf : ObjectId → Option FillId
  fills : FillId → Progress
  /-- The next unused identity. -/
  fresh : ℕ

namespace Shared

/-- A process that has just started over a data directory: nothing in memory. -/
def boot (index : ObjectIndex) (store : SliceKey → Option SliceValue) (fresh : ℕ) : Shared where
  index := index
  store := store
  cellOf := fun _ => none
  cells := fun _ => .empty
  flightOf := fun _ => none
  flights := fun _ => .running
  fillOf := fun _ => none
  fills := fun _ => .ready 0
  fresh := fresh

/-- The first start over an empty directory. -/
def init : Shared := boot .empty (fun _ => none) 0

/-- Store a slice, or drop it. -/
def setSlice (s : Shared) (key : SliceKey) (value : Option SliceValue) : Shared :=
  { s with store := Function.update s.store key value }

/-- The store as a read finds it: an evicted slice is gone. -/
def settle (s : Shared) (key : SliceKey) : Choice → Shared
  | .evicted => s.setSlice key none
  | _ => s

/-- The flight of a slice ends, and whoever waits for it gets the answer. -/
def resolve (s : Shared) (key : SliceKey) (flight : FlightId)
    (answer : Except StoreError SliceValue) : Shared :=
  { s with flightOf := Function.update s.flightOf key none
           flights := Function.update s.flights flight (.done answer) }

/-- A slice enters the store; a flight of it ends with what was inserted. -/
def land (s : Shared) (key : SliceKey) (value : SliceValue) : Shared :=
  { s.setSlice key (some value) with
    flightOf := Function.update s.flightOf key none
    flights :=
      match s.flightOf key with
      | none => s.flights
      | some flight => Function.update s.flights flight (.done (.ok value)) }

/-- What a fetch brings after its flight has ended is stored or dropped. -/
def landLate (s : Shared) (key : SliceKey) (value : SliceValue) : Choice → Shared
  | .replaces => s.land key value
  | _ => s

end Shared

open Shared in
/-- One atomic step.  `none` is a step that has to wait, or a choice that does not
answer it.  The steps on the store are foyer's and those on the index redb's, as above. -/
def exec : (a : Act) → Choice → Shared → Option (a.Res × Shared)
  | .now, .time t, s => some (t, s)
  | .now, _, _ => none
  | .indexGet id _, _, s => some (s.index.get id, s)
  | .indexPut id info _, _, s =>
      some (s.index.get id, { s with index := s.index.put id info })
  | .indexScan scan, _, s => some (scan.find s.index, s)
  | .indexRemove ids, _, s => some ((), { s with index := s.index.removeAll ids })
  | .cell object, _, s =>
      match s.cellOf object with
      | some cell => some (cell, s)
      | none =>
          let cell : CellId := { object := object, serial := s.fresh }
          some (cell, { s with cellOf := Function.update s.cellOf object (some cell)
                               fresh := s.fresh + 1 })
  | .cellInitialized cell, _, s =>
      some (match s.cells cell with | .ready _ => true | _ => false, s)
  | .cellEnter cell, _, s =>
      match s.cells cell with
      | .ready info => some (.ready info, s)
      | .empty => some (.claimed, { s with cells := Function.update s.cells cell .busy })
      | .busy => none
  | .cellInit cell info, _, s =>
      some ((), { s with cells := Function.update s.cells cell (.ready info) })
  | .cellAbandon cell, _, s =>
      some ((), { s with cells := Function.update s.cells cell .empty })
  | .cellDrop object, _, s =>
      some ((), { s with cellOf := Function.update s.cellOf object none })
  | .resolve _, .resolved answer, s => some (answer, s)
  | .resolve _, _, _ => none
  | .send _ _, .reply answer, s => some (answer, s)
  | .send _ _, _, _ => none
  | .storeContains key, choice, s =>
      let s := s.settle key choice
      some ((s.store key).isSome, s)
  | .storeGet _, .storeFails text, s => some (.error (.io text), s)
  | .storeGet key, choice, s =>
      let s := s.settle key choice
      some (.ok (s.store key), s)
  | .storeInsert key value _, _, s => some ((), s.land key value)
  | .storeRemove key, _, s => some ((), s.setSlice key none)
  | .storeEnter _, .storeFails text, s => some (.failed (.io text), s)
  | .storeEnter key, choice, s =>
      let s := s.settle key choice
      match s.store key, s.flightOf key with
      | some value, _ => some (.hit value, s)
      | none, some flight => some (.join flight, s)
      | none, none =>
          let flight : FlightId := { key := key, serial := s.fresh }
          some (.lead flight, { s with flightOf := Function.update s.flightOf key (some flight)
                                       flights := Function.update s.flights flight .running
                                       fresh := s.fresh + 1 })
  | .storeFinish flight result, choice, s =>
      match s.flights flight, result with
      | .running, .ok (value, _) =>
          let s := s.setSlice flight.key (some value)
          some (.ok value, s.resolve flight.key flight (.ok value))
      | .running, .error cause =>
          some (.error (.fetch cause), s.resolve flight.key flight (.error (.fetch cause)))
      -- an insert has come before the fetch
      | .done earlier, .ok (value, _) => some (earlier, s.landLate flight.key value choice)
      | .done earlier, .error _ => some (earlier, s)
  | .storeAwait flight, _, s =>
      match s.flights flight with
      | .done result => some (result, s)
      | .running => none
  | .fillClaim object, _, s =>
      match s.fillOf object with
      | some fill => some (.subscriber fill, s)
      | none =>
          let fill : FillId := { object := object, serial := s.fresh }
          some (.filler fill, { s with fillOf := Function.update s.fillOf object (some fill)
                                       fresh := s.fresh + 1 })
  | .fillRelease object, _, s =>
      some ((), { s with fillOf := Function.update s.fillOf object none })
  | .fillPublish fill progress, _, s =>
      some ((), { s with fills := Function.update s.fills fill progress })
  | .fillWait fill index, _, s =>
      match (s.fills fill).verdict index with
      | some answer => some (answer, s)
      | none => none

/-! ## What the index's steps can do -/

/-- The steps of an operation that only removes. -/
def Act.removes : Act → Bool
  | .now => true
  | .indexGet _ _ => true
  | .indexScan _ => true
  | .indexRemove _ => true
  | .storeRemove _ => true
  | _ => false

/-- The steps that change the index. -/
def Act.writesIndex : Act → Bool
  | .indexPut _ _ _ => true
  | .indexRemove _ => true
  | _ => false

/-- The steps that only talk to an origin. -/
def Act.network : Act → Bool
  | .resolve _ => true
  | .send _ _ => true
  | _ => false

/-- The steps of one request to an origin. -/
def Act.asks (purpose : Purpose) : Act → Bool
  | .resolve _ => true
  | .send p _ => p = purpose
  | _ => false

theorem Act.network_of_asks {purpose : Purpose} {a : Act} (ha : a.asks purpose = true) :
    a.network = true := by
  cases a <;> first | rfl | cases ha

/-- The steps of looking for slices in the store. -/
def Act.looks : Act → Bool
  | .storeContains _ => true
  | _ => false

/-- The steps of cutting a stream into slices. -/
def Act.cuts : Act → Bool
  | .storeInsert _ _ .fill => true
  | .fillPublish _ _ => true
  | _ => false

/-- The steps of filling an object, or of waiting for a fill. -/
def Act.fills : Act → Bool
  | .resolve _ => true
  | .send (.fill _ _) _ => true
  | .storeContains _ => true
  | .storeInsert _ _ .fill => true
  | .fillClaim _ => true
  | .fillRelease _ => true
  | .fillPublish _ _ => true
  | .fillWait _ _ => true
  | _ => false

/-- The steps of invalidating an object. -/
def Act.bumps : Act → Bool
  | .indexGet _ .invalidate => true
  | .indexPut _ _ (.invalidate _) => true
  | .cellDrop _ => true
  | _ => false

/-- The steps of fetching slices and of storing what an origin sends. -/
def Act.fetches : Act → Bool
  | .resolve _ => true
  | .send (.slice _) _ => true
  | .send (.fill _ _) _ => true
  | .storeContains _ => true
  | .storeGet _ => true
  | .storeInsert _ _ .fill => true
  | .storeEnter _ => true
  | .storeFinish _ _ => true
  | .storeAwait _ => true
  | .fillClaim _ => true
  | .fillRelease _ => true
  | .fillPublish _ _ => true
  | .fillWait _ _ => true
  | _ => false

theorem Act.fills_of_cuts {a : Act} (ha : a.cuts = true) : a.fills = true := by
  unfold Act.cuts at ha
  split at ha <;> first | rfl | cases ha

theorem Act.fetches_of_fills {a : Act} (ha : a.fills = true) : a.fetches = true := by
  unfold Act.fills at ha
  split at ha <;> first | rfl | cases ha

/-- Reading the clock changes nothing. -/
theorem exec_now_eq {choice : Choice} {s s' : Shared} {now : ℕ}
    (h : exec .now choice s = some (now, s')) : s' = s := by
  cases choice <;> cases h
  rfl

theorem exec_network {a : Act} {choice : Choice} {s s' : Shared} {r : a.Res}
    (ha : a.network = true) (h : exec a choice s = some (r, s')) : s' = s := by
  cases a with
  | resolve url => cases choice <;> cases h; rfl
  | send purpose request => cases choice <;> cases h; rfl
  | _ => cases ha

/-! ## What the store's steps can do -/

section StoreSteps

variable {s s' : Shared} {key : SliceKey} {choice : Choice}

/-- A read without fetching fails, or returns what is there. -/
theorem exec_storeGet_cases {r : Except StoreError (Option SliceValue)}
    (h : exec (.storeGet key) choice s = some (r, s')) :
    (∃ text, r = .error (.io text) ∧ s' = s) ∨
      (r = .ok ((s.settle key choice).store key) ∧ s' = s.settle key choice) := by
  cases choice with
  | storeFails text =>
      simp only [exec, Option.some.injEq, Prod.mk.injEq] at h
      exact .inl ⟨text, h.1.symm, h.2.symm⟩
  | _ =>
      simp only [exec, Option.some.injEq, Prod.mk.injEq] at h
      exact .inr ⟨h.1.symm, h.2.symm⟩

theorem exec_storeEnter_enabled (key : SliceKey) (choice : Choice) (s : Shared) :
    ∃ r s', exec (.storeEnter key) choice s = some (r, s') := by
  cases choice with
  | storeFails text => exact ⟨_, _, rfl⟩
  | _ =>
      simp only [exec]
      split <;> exact ⟨_, _, rfl⟩

/-- Asking for a slice to read or fetch: the store fails, has it, is already
fetching it, or leaves the fetch to the caller. -/
theorem exec_storeEnter_cases {r : StoreEntry}
    (h : exec (.storeEnter key) choice s = some (r, s')) :
    (∃ text, choice = .storeFails text ∧ r = .failed (.io text) ∧ s' = s) ∨
      (∃ value, (s.settle key choice).store key = some value ∧ r = .hit value ∧
        s' = s.settle key choice) ∨
      (∃ flight, (s.settle key choice).store key = none ∧ s.flightOf key = some flight ∧
        r = .join flight ∧ s' = s.settle key choice) ∨
      ((s.settle key choice).store key = none ∧ s.flightOf key = none ∧
        r = .lead { key := key, serial := s.fresh } ∧
        s' = { s.settle key choice with
          flightOf := Function.update s.flightOf key (some { key := key, serial := s.fresh })
          flights := Function.update s.flights { key := key, serial := s.fresh } .running
          fresh := s.fresh + 1 }) := by
  have hflight : (s.settle key choice).flightOf = s.flightOf := by cases choice <;> rfl
  have hflights : (s.settle key choice).flights = s.flights := by cases choice <;> rfl
  have hfresh : (s.settle key choice).fresh = s.fresh := by cases choice <;> rfl
  cases hfail : choice with
  | storeFails text =>
      subst hfail
      simp only [exec, Option.some.injEq, Prod.mk.injEq] at h
      exact .inl ⟨text, rfl, h.1.symm, h.2.symm⟩
  | _ =>
      rw [← hfail]
      refine .inr ?_
      cases hstore : (s.settle key choice).store key with
      | some value =>
          subst hfail
          simp only [exec, hstore, Option.some.injEq, Prod.mk.injEq] at h
          exact .inl ⟨value, rfl, h.1.symm, h.2.symm⟩
      | none =>
          cases hof : s.flightOf key with
          | some flight =>
              subst hfail
              simp only [exec, hstore, hflight, hof, Option.some.injEq, Prod.mk.injEq] at h
              exact .inr (.inl ⟨flight, rfl, rfl, h.1.symm, h.2.symm⟩)
          | none =>
              subst hfail
              simp only [exec, hstore, hflight, hflights, hof, hfresh, Option.some.injEq,
                Prod.mk.injEq] at h
              exact .inr (.inr ⟨rfl, rfl, h.1.symm, h.2.symm⟩)

/-- The end of a fetch.  Its flight ends with what it brought; if an insert has ended the flight
before, the fetch is answered with what was inserted. -/
theorem exec_storeFinish_cases {flight : FlightId}
    {result : Except FetchFailure (SliceValue × UpstreamResponse)}
    {r : Except StoreError SliceValue}
    (h : exec (.storeFinish flight result) choice s = some (r, s')) :
    (s.flights flight = .running ∧ ∃ value response, result = .ok (value, response) ∧
        r = .ok value ∧
        s' = (s.setSlice flight.key (some value)).resolve flight.key flight (.ok value)) ∨
      (s.flights flight = .running ∧ ∃ cause, result = .error cause ∧
        r = .error (.fetch cause) ∧
        s' = s.resolve flight.key flight (.error (.fetch cause))) ∨
      (s.flights flight = .done r ∧
        (s' = s ∨ ∃ value response, result = .ok (value, response) ∧
          s' = s.land flight.key value)) := by
  cases hflight : s.flights flight with
  | running =>
      cases result with
      | ok parts =>
          simp only [exec, hflight, Option.some.injEq, Prod.mk.injEq] at h
          exact .inl ⟨rfl, parts.1, parts.2, rfl, h.1.symm, h.2.symm⟩
      | error cause =>
          simp only [exec, hflight, Option.some.injEq, Prod.mk.injEq] at h
          exact .inr (.inl ⟨rfl, cause, rfl, h.1.symm, h.2.symm⟩)
  | done earlier =>
      right; right
      cases result with
      | ok parts =>
          simp only [exec, hflight, Option.some.injEq, Prod.mk.injEq] at h
          obtain ⟨rfl, rfl⟩ := h
          refine ⟨rfl, ?_⟩
          cases choice with
          | replaces => exact .inr ⟨parts.1, parts.2, rfl, rfl⟩
          | _ => exact .inl rfl
      | error cause =>
          simp only [exec, hflight, Option.some.injEq, Prod.mk.injEq] at h
          obtain ⟨rfl, rfl⟩ := h
          exact ⟨rfl, .inl rfl⟩

end StoreSteps

/-! ## What every step leaves alone -/

/-- The parts of the shared state. -/
inductive Part
  | index
  | cells
  | store
  | flights
  | fills
  deriving DecidableEq, Repr

/-- The parts a step may change. -/
def Act.writes : Act → List Part
  | .indexPut _ _ _ => [.index]
  | .indexRemove _ => [.index]
  | .cell _ => [.cells]
  | .cellEnter _ => [.cells]
  | .cellInit _ _ => [.cells]
  | .cellAbandon _ => [.cells]
  | .cellDrop _ => [.cells]
  | .storeContains _ => [.store]
  | .storeGet _ => [.store]
  | .storeInsert _ _ _ => [.store, .flights]
  | .storeRemove _ => [.store]
  | .storeEnter _ => [.store, .flights]
  | .storeFinish _ _ => [.store, .flights]
  | .fillClaim _ => [.fills]
  | .fillRelease _ => [.fills]
  | .fillPublish _ _ => [.fills]
  | _ => []

/-- A part is the same in both states. -/
def Part.Same (s s' : Shared) : Part → Prop
  | .index => s'.index = s.index
  | .cells => s'.cellOf = s.cellOf ∧ s'.cells = s.cells
  | .store => s'.store = s.store
  | .flights => s'.flightOf = s.flightOf ∧ s'.flights = s.flights
  | .fills => s'.fillOf = s.fillOf ∧ s'.fills = s.fills

theorem Part.same_refl (part : Part) (s : Shared) : part.Same s s := by
  cases part <;> simp [Part.Same]

theorem Part.same_settle {part : Part} (hpart : part ≠ .store) (s : Shared) (key : SliceKey)
    (choice : Choice) : part.Same s (s.settle key choice) := by
  cases choice with
  | evicted =>
      cases part with
      | store => exact absurd rfl hpart
      | _ => first | exact rfl | exact ⟨rfl, rfl⟩
  | _ => exact part.same_refl s

theorem Part.same_land {part : Part} (hstore : part ≠ .store) (hflights : part ≠ .flights)
    (s : Shared) (key : SliceKey) (value : SliceValue) : part.Same s (s.land key value) := by
  cases part <;> first | exact rfl | exact ⟨rfl, rfl⟩ | contradiction

/-- **What a step leaves alone**: every part it does not write. -/
theorem exec_frame {a : Act} {choice : Choice} {s s' : Shared} {r : a.Res}
    (h : exec a choice s = some (r, s')) {part : Part} (hpart : part ∉ a.writes) :
    part.Same s s' := by
  cases a with
  | now => cases choice <;> cases h; exact part.same_refl s
  | resolve url => cases choice <;> cases h; exact part.same_refl s
  | send purpose request => cases choice <;> cases h; exact part.same_refl s
  | storeContains key =>
      cases h
      exact Part.same_settle (List.ne_of_not_mem_cons hpart) _ key choice
  | storeGet key =>
      rcases exec_storeGet_cases h with ⟨text, -, rfl⟩ | ⟨-, rfl⟩
      · exact part.same_refl _
      · exact Part.same_settle (List.ne_of_not_mem_cons hpart) _ key choice
  | storeEnter key =>
      have hsettle := Part.same_settle (List.ne_of_not_mem_cons hpart) s key choice
      rcases exec_storeEnter_cases h with ⟨text, -, -, rfl⟩ | ⟨value, -, -, rfl⟩ |
        ⟨flight, -, -, -, rfl⟩ | ⟨-, -, -, rfl⟩
      · exact part.same_refl _
      · exact hsettle
      · exact hsettle
      · cases part <;> first | exact hsettle | simp [Act.writes] at hpart
  | storeInsert key value writer =>
      cases h
      exact Part.same_land (List.ne_of_not_mem_cons hpart)
        (List.ne_of_not_mem_cons (List.not_mem_of_not_mem_cons hpart)) _ key value
  | storeFinish flight result =>
      have hstore : part ≠ .store := List.ne_of_not_mem_cons hpart
      have hflights : part ≠ .flights :=
        List.ne_of_not_mem_cons (List.not_mem_of_not_mem_cons hpart)
      rcases exec_storeFinish_cases h with ⟨-, value, response, -, -, rfl⟩ |
        ⟨-, cause, -, -, rfl⟩ | ⟨-, rfl | ⟨value, response, -, rfl⟩⟩
      · cases part <;> first | exact rfl | exact ⟨rfl, rfl⟩ | contradiction
      · cases part <;> first | exact rfl | exact ⟨rfl, rfl⟩ | contradiction
      · exact part.same_refl _
      · exact Part.same_land hstore hflights _ _ value
  | _ =>
      -- one record update, or none, and no choice is looked at
      simp only [exec] at h
      repeat' split at h
      all_goals cases h
      all_goals
        cases part <;>
          first | exact rfl | exact ⟨rfl, rfl⟩ | simp [Act.writes] at hpart

theorem settle_fresh (s : Shared) (key : SliceKey) (choice : Choice) :
    (s.settle key choice).fresh = s.fresh := by cases choice <;> rfl

/-- Identities are never given back. -/
theorem exec_fresh {a : Act} {choice : Choice} {s s' : Shared} {r : a.Res}
    (h : exec a choice s = some (r, s')) : s.fresh ≤ s'.fresh := by
  have hsettle := fun key => settle_fresh s key choice
  cases a with
  | now => cases choice <;> cases h; exact le_rfl
  | resolve url => cases choice <;> cases h; exact le_rfl
  | send purpose request => cases choice <;> cases h; exact le_rfl
  | storeContains key =>
      cases h
      exact (hsettle key).ge
  | storeGet key =>
      rcases exec_storeGet_cases h with ⟨text, -, rfl⟩ | ⟨-, rfl⟩
      · exact le_rfl
      · exact (hsettle key).ge
  | storeEnter key =>
      rcases exec_storeEnter_cases h with ⟨text, -, -, rfl⟩ | ⟨value, -, -, rfl⟩ |
        ⟨flight, -, -, -, rfl⟩ | ⟨-, -, -, rfl⟩
      · exact le_rfl
      · exact (hsettle key).ge
      · exact (hsettle key).ge
      · exact Nat.le_succ _
  | storeInsert key value writer =>
      cases h
      exact le_rfl
  | storeFinish flight result =>
      rcases exec_storeFinish_cases h with ⟨-, value, response, -, -, rfl⟩ |
        ⟨-, cause, -, -, rfl⟩ | ⟨-, rfl | ⟨value, response, -, rfl⟩⟩
      · exact le_rfl
      · exact le_rfl
      · exact le_rfl
      · exact le_rfl
  | _ =>
      simp only [exec] at h
      repeat' split at h
      all_goals cases h
      all_goals first | exact le_rfl | exact Nat.le_succ _

/-- The steps that do not change the index leave it as it is. -/
theorem exec_index {a : Act} {choice : Choice} {s s' : Shared} {r : a.Res}
    (ha : a.writesIndex = false) (h : exec a choice s = some (r, s')) : s'.index = s.index := by
  have hpart : Part.index ∉ a.writes := by cases a <;> simp [Act.writes, Act.writesIndex] at ha ⊢
  exact exec_frame h hpart

end Cachic
