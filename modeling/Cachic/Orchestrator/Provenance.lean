import Cachic.Orchestrator.Programs

/-!
# Where stored slices come from

Three programs write slices: the probe, the fetch behind `slice`, and the fill.
What they write is derived from an origin's answer and from metadata that was
itself derived, by some probe, from an origin's answer and a generation read in
the index.  This file says that once, for every interleaving: each stored slice,
each metadata in use and each slice returned has a *provenance* among the events
of the run.

The history of a run never shrinks, so a provenance once given stays given, and
the whole argument is an instance of `ActionLang.Protocol`: the invariant is that
everything in the shared state has a provenance, and every program keeps it.
Nothing is assumed about the origin.  What an origin's honesty or dishonesty
means for the stored bytes is read off the provenance afterwards.
-/

namespace Cachic

open Range Tiling ActionLang

/-- What has happened in a run, newest first. -/
abbrev Hist := List (Event Act Act.Res)

/-! ## Evidence in a history -/

/-- A probe's reading of the generation: the point where what the origin answered
becomes the object's metadata. -/
structure Commit where
  object : ObjectId
  generation : ℕ
  probed : Probed
  deriving DecidableEq, Repr

def commitOf : Event Act Act.Res → Option Commit
  | ⟨.indexGet id (.probe probed), previous⟩ =>
      some { object := id, generation := generationOf previous, probed := probed }
  | _ => none

/-- The commits of a run. -/
def commits (h : Hist) : List Commit := h.filterMap commitOf

/-- The event of a request being answered. -/
abbrev answered (purpose : Purpose) (request : Request) (raw : RawResponse) :
    Event Act Act.Res :=
  ⟨.send purpose request, .ok raw⟩

/-- One answered request. -/
structure Exchange where
  purpose : Purpose
  request : Request
  raw : RawResponse
  deriving DecidableEq, Repr

def exchangeOf : Event Act Act.Res → Option Exchange
  | ⟨.send purpose request, .ok raw⟩ =>
      some { purpose := purpose, request := request, raw := raw }
  | _ => none

/-- The answered requests of a run. -/
def exchanges (h : Hist) : List Exchange := h.filterMap exchangeOf

theorem mem_exchanges {h : Hist} {purpose : Purpose} {request : Request} {raw : RawResponse}
    (hmem : answered purpose request raw ∈ h) :
    { purpose := purpose, request := request, raw := raw } ∈ exchanges h :=
  List.mem_filterMap.mpr ⟨_, hmem, rfl⟩

/-- The object a request is for. -/
def Purpose.object : Purpose → ObjectId
  | .probe object _ => object
  | .slice key => key.object
  | .fill object _ => object

/-- A ranged request was answered, and `fetch_range` made `response` of the
answer. -/
def Answered (h : Hist) (purpose : Purpose) (url : String) (start stop : ℕ)
    (response : UpstreamResponse) : Prop :=
  ∃ (client : ClientConfig) (headers : HeaderMap) (raw : RawResponse),
    answered purpose { url := url, range := some (start, stop), headers := headers } raw ∈ h ∧
      receive client url start stop raw = .ok response

/-- A request for a whole object was answered with a stream. -/
def Streamed (h : Hist) (object : ObjectId) (header : SliceHeader) (raw : RawResponse) : Prop :=
  ∃ (url : String) (headers : HeaderMap),
    answered (.fill object header) { url := url, range := none, headers := headers } raw ∈ h ∧
      refusal url raw = none

/-- A commit rests on an answer to the probe's request. -/
def Commit.Justified (h : Hist) (c : Commit) : Prop :=
  ValidSliceSize c.probed.sliceSize ∧ c.probed.index < 2 ^ 32 ∧ ∃ url,
    Answered h (.probe c.object c.probed.index) url (c.probed.index * c.probed.sliceSize)
      (c.probed.index * c.probed.sliceSize + c.probed.sliceSize - 1) c.probed.response ∧
    shape url c.probed.response = .ok (c.probed.totalLen, c.probed.noRanges)

/-- An index entry is what a commit made it, up to its time stamps. -/
def Commit.Describes (c : Commit) (info : ObjectMeta) : Prop :=
  ∃ now seen, info = { c.probed.info c.generation now with lastSeen := seen }

/-- Metadata that some probe of the object established. -/
def Recorded (h : Hist) (object : ObjectId) (info : ObjectMeta) : Prop :=
  ∃ c ∈ commits h, c.Justified h ∧ c.object = object ∧ c.Describes info

/-- What a stored slice was made from. -/
inductive Provenance (h : Hist) : SliceKey → SliceValue → Writer → Prop
  | probe {c : Commit} (now : ℕ) :
      c ∈ commits h → c.Justified h → c.probed.noRanges = false →
      Provenance h
        { object := c.object, generation := c.generation, index := c.probed.index }
        { header := headerFor (c.probed.info c.generation now) c.probed.sliceSize
          payload := c.probed.response.body }
        (.probe c.probed.response)
  | fetch {object : ObjectId} {info : ObjectMeta} {sliceSize index : ℕ} {url : String}
      {response : UpstreamResponse} :
      Recorded h object info → info.noRanges = false → ValidSliceSize sliceSize →
      index < 2 ^ 32 →
      index * sliceSize < info.totalLen →
      Answered h
        (.slice { object := object, generation := info.generation, index := index }) url
        (sliceExtent index sliceSize info.totalLen).start
        (sliceExtent index sliceSize info.totalLen).stop response →
      info.validators.matchesWith response.validators = true →
      response.body.length = (sliceExtent index sliceSize info.totalLen).len →
      Provenance h { object := object, generation := info.generation, index := index }
        { header := headerFor info sliceSize, payload := response.body } (.fetch response)
  | fill {object : ObjectId} {info : ObjectMeta} {sliceSize piece : ℕ} {raw : RawResponse} :
      Recorded h object info → info.noRanges = true → ValidSliceSize sliceSize →
      Streamed h object (headerFor info sliceSize) raw →
      piece * sliceSize < raw.chunks.flatten.length →
      ((piece + 1) * sliceSize ≤ raw.chunks.flatten.length ∨ raw.failure = none) →
      Provenance h
        { object := object, generation := info.generation, index := piece % 2 ^ 32 }
        { header := headerFor info sliceSize, payload := tile raw.chunks.flatten sliceSize piece }
        .fill

/-- The slice an event puts into the store. -/
def storedBy : Event Act Act.Res → Option (SliceKey × SliceValue × Writer)
  | ⟨.storeInsert key value writer, _⟩ => some (key, value, writer)
  | ⟨.storeFinish flight (.ok (value, response)), _⟩ => some (flight.key, value, .fetch response)
  | _ => none

/-! ### Evidence is never lost -/

section Mono

variable {h h' : Hist}

theorem commits_subset (hsub : h ⊆ h') : commits h ⊆ commits h' := by
  intro c hc
  rw [commits, List.mem_filterMap] at hc ⊢
  obtain ⟨e, he, hec⟩ := hc
  exact ⟨e, hsub he, hec⟩

theorem Answered.mono (hsub : h ⊆ h') {purpose : Purpose} {url : String} {start stop : ℕ}
    {response : UpstreamResponse} (ha : Answered h purpose url start stop response) :
    Answered h' purpose url start stop response := by
  obtain ⟨client, headers, raw, hmem, hrecv⟩ := ha
  exact ⟨client, headers, raw, hsub hmem, hrecv⟩

theorem Streamed.mono (hsub : h ⊆ h') {object : ObjectId} {header : SliceHeader}
    {raw : RawResponse} (ha : Streamed h object header raw) : Streamed h' object header raw := by
  obtain ⟨url, headers, hmem, hrefusal⟩ := ha
  exact ⟨url, headers, hsub hmem, hrefusal⟩

theorem Commit.Justified.mono (hsub : h ⊆ h') {c : Commit} (hc : c.Justified h) :
    c.Justified h' := by
  obtain ⟨hvalid, hindex, url, ha, hshape⟩ := hc
  exact ⟨hvalid, hindex, url, ha.mono hsub, hshape⟩

theorem Recorded.mono (hsub : h ⊆ h') {object : ObjectId} {info : ObjectMeta}
    (hr : Recorded h object info) : Recorded h' object info := by
  obtain ⟨c, hc, hjust, hobj, hdesc⟩ := hr
  exact ⟨c, commits_subset hsub hc, hjust.mono hsub, hobj, hdesc⟩

theorem Provenance.mono (hsub : h ⊆ h') {key : SliceKey} {value : SliceValue} {writer : Writer}
    (hp : Provenance h key value writer) : Provenance h' key value writer := by
  cases hp with
  | probe now hc hjust hranges =>
      exact .probe now (commits_subset hsub hc) (hjust.mono hsub) hranges
  | fetch hrec hranges hvalid hindex hin ha hmatch hlen =>
      exact .fetch (hrec.mono hsub) hranges hvalid hindex hin (ha.mono hsub) hmatch hlen
  | fill hrec hranges hvalid hs hin hwhole =>
      exact .fill (hrec.mono hsub) hranges hvalid (hs.mono hsub) hin hwhole

end Mono

/-- Seeing an object again does not change what is recorded about it. -/
theorem Recorded.seen {h : Hist} {object : ObjectId} {info : ObjectMeta}
    (hr : Recorded h object info) (seen : ℕ) :
    Recorded h object { info with lastSeen := seen } := by
  obtain ⟨c, hc, hjust, hobj, now, _, rfl⟩ := hr
  exact ⟨c, hc, hjust, hobj, now, seen, rfl⟩

/-! ## The protocol -/

/-- A slice the store may hand out while slices are stored at the sizes `S`. -/
def Held (S : ℕ → Prop) (h : Hist) (key : SliceKey) (value : SliceValue) : Prop :=
  S value.header.sliceSize ∧ ∃ writer, Provenance h key value writer

theorem Held.mono {S : ℕ → Prop} {h h' : Hist} (hsub : h ⊆ h') {key : SliceKey} {value : SliceValue}
    (hv : Held S h key value) : Held S h' key value := by
  obtain ⟨hsize, writer, hp⟩ := hv
  exact ⟨hsize, writer, hp.mono hsub⟩

/-- Everything in the shared state, and everything ever stored, has a
provenance. -/
structure Traced (S : ℕ → Prop) (h : Hist) (st : Shared) : Prop where
  index : ∀ object info, st.index.get object = some info → info.stale = false →
    Recorded h object info
  cells : ∀ cell info, st.cells cell = .ready info → Recorded h cell.object info
  store : ∀ key value, st.store key = some value → Held S h key value
  flights : ∀ flight value, st.flights flight = .done (.ok value) → Held S h flight.key value
  cellOf : ∀ object cell, st.cellOf object = some cell → cell.object = object
  flightOf : ∀ key flight, st.flightOf key = some flight → flight.key = key
  stored : ∀ e ∈ h, ∀ key value writer, storedBy e = some (key, value, writer) →
    S value.header.sliceSize ∧ Provenance h key value writer

/-- What a program must know before it performs an action. -/
def Needs (S : ℕ → Prop) (h : Hist) : Act → Prop
  | .indexPut id info _ => info.stale = false → Recorded h id info
  | .cellInit cell info => Recorded h cell.object info
  | .storeInsert key value writer =>
      S value.header.sliceSize ∧ Provenance h key value writer
  | .storeFinish flight result => ∀ value response, result = .ok (value, response) →
      S value.header.sliceSize ∧ Provenance h flight.key value (.fetch response)
  | _ => True

/-- What it learns from the answer. -/
def Learns (S : ℕ → Prop) (h : Hist) : (a : Act) → a.Res → Prop
  | .indexGet id _, found => ∀ info, found = some info → info.stale = false → Recorded h id info
  | .cell object, cell => cell.object = object
  | .cellEnter cell, entry => ∀ info, entry = .ready info → Recorded h cell.object info
  | .storeGet key, found => ∀ value, found = .ok (some value) → Held S h key value
  | .storeEnter key, entry =>
      match entry with
      | .hit value => Held S h key value
      | .lead flight => flight.key = key
      | .join flight => flight.key = key
      | .failed _ => True
  | .storeFinish flight _, result => ∀ value, result = .ok value → Held S h flight.key value
  | .storeAwait flight, result => ∀ value, result = .ok value → Held S h flight.key value
  | _, _ => True

theorem Needs.mono {S : ℕ → Prop} {h h' : Hist} {a : Act} (hsub : h ⊆ h') (hn : Needs S h a) :
    Needs S h' a := by
  cases a with
  | indexPut id info site => exact fun hstale => (hn hstale).mono hsub
  | cellInit cell info => exact Recorded.mono hsub hn
  | storeInsert key value writer => exact ⟨hn.1, hn.2.mono hsub⟩
  | storeFinish flight result =>
      exact fun value response hok =>
        ⟨(hn value response hok).1, (hn value response hok).2.mono hsub⟩
  | _ => trivial

namespace Traced

variable {S : ℕ → Prop} {h : Hist} {st : Shared}

/-- One more event, whose stored slice, if it stores one, has a provenance. -/
theorem push (ht : Traced S h st) (e : Event Act Act.Res)
    (he : ∀ key value writer, storedBy e = some (key, value, writer) →
      S value.header.sliceSize ∧ Provenance (e :: h) key value writer) : Traced S (e :: h) st := by
  have hsub : h ⊆ e :: h := List.subset_cons_self e h
  refine ⟨fun o info hget hstale => (ht.index o info hget hstale).mono hsub,
    fun c info hc => (ht.cells c info hc).mono hsub,
    fun k v hk => (ht.store k v hk).mono hsub,
    fun f v hf => (ht.flights f v hf).mono hsub, ht.cellOf, ht.flightOf, ?_⟩
  intro e' he' key value writer hst
  rcases List.mem_cons.mp he' with rfl | hold
  · exact he key value writer hst
  · exact (ht.stored e' hold key value writer hst).imp_right (·.mono hsub)

/-- One more event that stores nothing. -/
theorem push_none (ht : Traced S h st) {e : Event Act Act.Res} (he : storedBy e = none) :
    Traced S (e :: h) st :=
  ht.push e fun key value writer hst => by simp [he] at hst

theorem put (ht : Traced S h st) {id : ObjectId} {info : ObjectMeta}
    (hinfo : info.stale = false → Recorded h id info) :
    Traced S h { st with index := st.index.put id info } := by
  refine { ht with index := fun o i hget hstale => ?_ }
  rw [ObjectIndex.get_put] at hget
  split at hget
  · rename_i heq
    cases hget
    rw [heq]
    exact hinfo hstale
  · exact ht.index o i hget hstale

theorem remove (ht : Traced S h st) (ids : List ObjectId) :
    Traced S h { st with index := st.index.removeAll ids } := by
  refine { ht with index := fun o i hget hstale => ?_ }
  rw [ObjectIndex.get_removeAll] at hget
  split at hget
  · cases hget
  · exact ht.index o i hget hstale

theorem setSlice (ht : Traced S h st) (key : SliceKey) (value : Option SliceValue)
    (hvalue : ∀ v, value = some v → Held S h key v) : Traced S h (st.setSlice key value) := by
  have hstore := (Function.forall_update_iff st.store
    (p := fun k x => ∀ v, x = some v → Held S h k v)).mpr ⟨hvalue, fun k _ => ht.store k⟩
  exact { ht with store := hstore }

theorem settle (ht : Traced S h st) (key : SliceKey) (choice : Choice) :
    Traced S h (st.settle key choice) := by
  cases choice with
  | evicted => exact ht.setSlice key none fun v hv => by cases hv
  | _ => exact ht

theorem setCell (ht : Traced S h st) (cell : CellId) (state : Cell)
    (hstate : ∀ info, state = .ready info → Recorded h cell.object info) :
    Traced S h { st with cells := Function.update st.cells cell state } := by
  have hcells := (Function.forall_update_iff st.cells
    (p := fun c x => ∀ info, x = .ready info → Recorded h c.object info)).mpr
      ⟨hstate, fun c _ => ht.cells c⟩
  exact { ht with cells := hcells }

theorem setCellOf (ht : Traced S h st) (object : ObjectId) (cell : Option CellId) (fresh : ℕ)
    (hcell : ∀ c, cell = some c → c.object = object) :
    Traced S h { st with cellOf := Function.update st.cellOf object cell, fresh := fresh } := by
  have hcellOf := (Function.forall_update_iff st.cellOf
    (p := fun o x => ∀ c, x = some c → c.object = o)).mpr ⟨hcell, fun o _ => ht.cellOf o⟩
  exact { ht with cellOf := hcellOf }

theorem setFlightOf (ht : Traced S h st) (key : SliceKey) (flight : Option FlightId) (fresh : ℕ)
    (hflight : ∀ f, flight = some f → f.key = key) :
    Traced S h { st with flightOf := Function.update st.flightOf key flight, fresh := fresh } := by
  have hflightOf := (Function.forall_update_iff st.flightOf
    (p := fun k x => ∀ f, x = some f → f.key = k)).mpr ⟨hflight, fun k _ => ht.flightOf k⟩
  exact { ht with flightOf := hflightOf }

theorem setFlight (ht : Traced S h st) (flight : FlightId) (state : Flight)
    (hstate : ∀ v, state = .done (.ok v) → Held S h flight.key v) :
    Traced S h { st with flights := Function.update st.flights flight state } := by
  have hflights := (Function.forall_update_iff st.flights
    (p := fun f x => ∀ v, x = .done (.ok v) → Held S h f.key v)).mpr
      ⟨hstate, fun f _ => ht.flights f⟩
  exact { ht with flights := hflights }

/-- The end of a flight. -/
theorem resolve (ht : Traced S h st) (flight : FlightId) (key : SliceKey)
    (answer : Except StoreError SliceValue)
    (hanswer : ∀ v, answer = .ok v → Held S h flight.key v) :
    Traced S h (st.resolve key flight answer) := by
  have hdone := ht.setFlight flight (.done answer) fun v hv => hanswer v (Flight.done.inj hv)
  exact hdone.setFlightOf key none st.fresh fun f hf => by cases hf

/-- A slice that enters the store is also what its flight ends with. -/
theorem land (ht : Traced S h st) {key : SliceKey} {value : SliceValue}
    (hvalue : Held S h key value) : Traced S h (st.land key value) := by
  have hstored := ht.setSlice key (some value) fun v hv => by
    cases hv
    exact hvalue
  unfold Shared.land
  split
  · exact hstored.setFlightOf key none st.fresh fun f hf => by cases hf
  · next flight hflight =>
      refine hstored.resolve flight key (.ok value) fun v hv => ?_
      cases hv
      rwa [ht.flightOf key flight hflight]

/-- A restart forgets everything in memory.  The store has some of what was ever stored, and the
new process must store at the sizes of all of it. -/
theorem boot {S' : ℕ → Prop} (ht : Traced S h st) {found : SliceKey → Option SliceValue}
    (fresh : ℕ)
    (hfound : ∀ key value, found key = some value →
      ∃ e ∈ h, ∃ writer, storedBy e = some (key, value, writer))
    (hsizes : ∀ e ∈ h, ∀ key value writer, storedBy e = some (key, value, writer) →
      S' value.header.sliceSize) :
    Traced S' h (Shared.boot st.index found fresh) := by
  have hstored : ∀ e ∈ h, ∀ key value writer, storedBy e = some (key, value, writer) →
      S' value.header.sliceSize ∧ Provenance h key value writer := by
    intro e he key value writer hst
    exact ⟨hsizes e he key value writer hst, (ht.stored e he key value writer hst).2⟩
  refine ⟨ht.index, ?_, fun key value hv => ?_, ?_, ?_, ?_, hstored⟩
  rotate_left
  · obtain ⟨e, he, writer, hst⟩ := hfound key value hv
    obtain ⟨hsize, hprov⟩ := hstored e he key value writer hst
    exact ⟨hsize, writer, hprov⟩
  rotate_right
  · intro cell info hc
    cases hc
  · intro flight value hf
    cases hf
  · intro object cell hc
    cases hc
  · intro key flight hf
    cases hf

/-- A step that writes nothing but the state of fills. -/
theorem frame {a : Act} {choice : Choice} {st' : Shared} {r : a.Res} (ht : Traced S h st)
    (hexec : exec a choice st = some (r, st')) (hwrites : a.writes ⊆ [.fills]) :
    Traced S h st' := by
  have hsame : ∀ part, part ≠ Part.fills → part.Same st st' := fun part hpart =>
    exec_frame hexec fun hmem => hpart (List.mem_singleton.mp (hwrites hmem))
  have hindex : st'.index = st.index := hsame .index nofun
  have hstore : st'.store = st.store := hsame .store nofun
  obtain ⟨hcellOf, hcells⟩ := hsame .cells nofun
  obtain ⟨hflightOf, hflights⟩ := hsame .flights nofun
  exact ⟨hindex ▸ ht.index, hcells ▸ ht.cells, hstore ▸ ht.store, hflights ▸ ht.flights,
    hcellOf ▸ ht.cellOf, hflightOf ▸ ht.flightOf, ht.stored⟩

end Traced

section StoreSteps

variable {S : ℕ → Prop} {h : Hist} {st st' : Shared} {choice : Choice}

/-- Asking the store for a slice. -/
theorem traced_storeEnter {key : SliceKey} {r : StoreEntry} (ht : Traced S h st)
    (hexec : exec (.storeEnter key) choice st = some (r, st')) :
    Traced S (⟨.storeEnter key, r⟩ :: h) st' ∧
      Learns S (⟨.storeEnter key, r⟩ :: h) (.storeEnter key) r := by
  have hsettled := (ht.push_none (e := ⟨.storeEnter key, r⟩) rfl).settle key choice
  rcases exec_storeEnter_cases hexec with ⟨text, -, rfl, rfl⟩ | ⟨value, hstore, rfl, rfl⟩ |
    ⟨flight, -, hflight, rfl, rfl⟩ | ⟨-, -, rfl, rfl⟩
  · exact ⟨ht.push_none rfl, trivial⟩
  · exact ⟨hsettled, hsettled.store key value hstore⟩
  · exact ⟨hsettled, ht.flightOf key flight hflight⟩
  · have hof : (st.settle key choice).flightOf = st.flightOf := by cases choice <;> rfl
    have hflights : (st.settle key choice).flights = st.flights := by cases choice <;> rfl
    rw [← hof, ← hflights]
    have hlead := hsettled.setFlight ⟨key, st.fresh⟩ .running fun v hv => by cases hv
    refine ⟨hlead.setFlightOf _ _ _ fun f hf => ?_, rfl⟩
    cases hf
    rfl

/-- The end of a fetch: what it brought has the provenance the fetch vouches for. -/
theorem traced_storeFinish {flight : FlightId}
    {result : Except FetchFailure (SliceValue × UpstreamResponse)}
    {r : Except StoreError SliceValue}
    (ht : Traced S h st) (hn : Needs S h (.storeFinish flight result))
    (hexec : exec (.storeFinish flight result) choice st = some (r, st')) :
    Traced S (⟨.storeFinish flight result, r⟩ :: h) st' ∧
      Learns S (⟨.storeFinish flight result, r⟩ :: h) (.storeFinish flight result) r := by
  have hsub : h ⊆ ⟨.storeFinish flight result, r⟩ :: h := List.subset_cons_self _ h
  have hheld : ∀ {value response}, result = .ok (value, response) →
      Held S (⟨.storeFinish flight result, r⟩ :: h) flight.key value := by
    intro value response hok
    obtain ⟨hsize, hprov⟩ := hn value response hok
    exact ⟨hsize, .fetch response, hprov.mono hsub⟩
  have hpushed : Traced S (⟨.storeFinish flight result, r⟩ :: h) st := by
    refine ht.push _ fun k v w hst => ?_
    cases result with
    | error cause => cases hst
    | ok parts =>
        cases hst
        obtain ⟨hsize, hprov⟩ := hn parts.1 parts.2 rfl
        exact ⟨hsize, hprov.mono hsub⟩
  rcases exec_storeFinish_cases hexec with ⟨-, value, response, hok, rfl, rfl⟩ |
    ⟨-, cause, -, rfl, rfl⟩ | ⟨hdone, hlate⟩
  · have hanswer : ∀ v, (.ok value : Except StoreError SliceValue) = .ok v →
        Held S (⟨.storeFinish flight result, .ok value⟩ :: h) flight.key v := by
      rintro v ⟨⟩
      exact hheld hok
    refine ⟨(hpushed.setSlice flight.key (some value) fun v hv => ?_).resolve _ _ _ hanswer,
      hanswer⟩
    cases hv
    exact hheld hok
  · exact ⟨hpushed.resolve _ _ _ fun v hv => (by cases hv), fun v hv => (by cases hv)⟩
  · refine ⟨?_, fun v hv => ?_⟩
    · rcases hlate with rfl | ⟨value, response, hok, rfl⟩
      · exact hpushed
      · exact hpushed.land (hheld hok)
    · rw [hv] at hdone
      exact hpushed.flights flight v hdone

end StoreSteps

/-- **One atomic step keeps the provenances**, and what it answers has one. -/
theorem traced_step {S : ℕ → Prop} {h : Hist} {st st' : Shared} {a : Act} {choice : Choice}
    {r : a.Res} (ht : Traced S h st) (hn : Needs S h a) (hexec : exec a choice st = some (r, st')) :
    Traced S (⟨a, r⟩ :: h) st' ∧ Learns S (⟨a, r⟩ :: h) a r := by
  have hsub : h ⊆ ⟨a, r⟩ :: h := List.subset_cons_self _ h
  cases a with
  -- steps that write nothing with a provenance
  | now | indexScan _ | cellInitialized _ | resolve _ | send _ _ | fillWait _ _ =>
      exact ⟨(ht.push_none rfl).frame hexec (List.nil_subset _), trivial⟩
  | fillClaim _ | fillRelease _ | fillPublish _ _ =>
      exact ⟨(ht.push_none rfl).frame hexec (List.Subset.refl _), trivial⟩
  | indexGet id site =>
      simp only [exec, Option.some.injEq, Prod.mk.injEq] at hexec
      obtain ⟨rfl, rfl⟩ := hexec
      have hnone : storedBy ⟨.indexGet id site, st.index.get id⟩ = none := rfl
      exact ⟨ht.push_none hnone, fun info hget hstale => (ht.index id info hget hstale).mono hsub⟩
  | indexPut id info site =>
      simp only [exec, Option.some.injEq, Prod.mk.injEq] at hexec
      obtain ⟨rfl, rfl⟩ := hexec
      exact ⟨(ht.push_none rfl).put fun hstale => (hn hstale).mono hsub, trivial⟩
  | indexRemove ids =>
      simp only [exec, Option.some.injEq, Prod.mk.injEq] at hexec
      obtain ⟨-, rfl⟩ := hexec
      exact ⟨(ht.push_none rfl).remove ids, trivial⟩
  | cell object =>
      simp only [exec] at hexec
      split at hexec
      · rename_i cell hcell
        simp only [Option.some.injEq, Prod.mk.injEq] at hexec
        obtain ⟨rfl, rfl⟩ := hexec
        exact ⟨ht.push_none rfl, ht.cellOf object _ hcell⟩
      · simp only [Option.some.injEq, Prod.mk.injEq] at hexec
        obtain ⟨rfl, rfl⟩ := hexec
        refine ⟨(ht.push_none rfl).setCellOf _ _ _ fun c hc => ?_, rfl⟩
        cases hc
        rfl
  | cellEnter cell =>
      simp only [exec] at hexec
      split at hexec
      · rename_i info hcell
        simp only [Option.some.injEq, Prod.mk.injEq] at hexec
        obtain ⟨rfl, rfl⟩ := hexec
        refine ⟨ht.push_none rfl, fun i hi => ?_⟩
        cases hi
        exact (ht.cells cell info hcell).mono hsub
      · simp only [Option.some.injEq, Prod.mk.injEq] at hexec
        obtain ⟨rfl, rfl⟩ := hexec
        exact ⟨(ht.push_none rfl).setCell _ _ fun i hi => (by cases hi), fun i hi => (by cases hi)⟩
      · cases hexec
  | cellInit cell info =>
      simp only [exec, Option.some.injEq, Prod.mk.injEq] at hexec
      obtain ⟨-, rfl⟩ := hexec
      refine ⟨(ht.push_none rfl).setCell _ _ fun i hi => ?_, trivial⟩
      cases hi
      exact Recorded.mono hsub hn
  | cellAbandon cell =>
      simp only [exec, Option.some.injEq, Prod.mk.injEq] at hexec
      obtain ⟨-, rfl⟩ := hexec
      exact ⟨(ht.push_none rfl).setCell _ _ fun i hi => (by cases hi), trivial⟩
  | cellDrop object =>
      simp only [exec, Option.some.injEq, Prod.mk.injEq] at hexec
      obtain ⟨-, rfl⟩ := hexec
      exact ⟨(ht.push_none rfl).setCellOf _ _ st.fresh fun c hc => (by cases hc), trivial⟩
  | storeContains key =>
      simp only [exec, Option.some.injEq, Prod.mk.injEq] at hexec
      obtain ⟨rfl, rfl⟩ := hexec
      exact ⟨(ht.push_none rfl).settle key choice, trivial⟩
  | storeGet key =>
      rcases exec_storeGet_cases hexec with ⟨text, rfl, rfl⟩ | ⟨rfl, rfl⟩
      · exact ⟨ht.push_none rfl, fun v hv => by cases hv⟩
      · refine ⟨(ht.push_none rfl).settle key choice, fun v hv => ?_⟩
        exact ((ht.settle key choice).store key v (Except.ok.inj hv)).mono hsub
  | storeInsert key value writer =>
      simp only [exec, Option.some.injEq, Prod.mk.injEq] at hexec
      obtain ⟨-, rfl⟩ := hexec
      obtain ⟨hsize, hprov⟩ := hn
      refine ⟨(ht.push _ fun k v w hst => ?_).land ⟨hsize, writer, hprov.mono hsub⟩, trivial⟩
      simp only [storedBy, Option.some.injEq, Prod.mk.injEq] at hst
      obtain ⟨rfl, rfl, rfl⟩ := hst
      exact ⟨hsize, hprov.mono hsub⟩
  | storeRemove key =>
      simp only [exec, Option.some.injEq, Prod.mk.injEq] at hexec
      obtain ⟨-, rfl⟩ := hexec
      exact ⟨(ht.push_none rfl).setSlice _ _ fun v hv => (by cases hv), trivial⟩
  | storeEnter key => exact traced_storeEnter ht hexec
  | storeFinish flight result => exact traced_storeFinish ht hn hexec
  | storeAwait flight =>
      simp only [exec] at hexec
      split at hexec
      · rename_i result hflight
        simp only [Option.some.injEq, Prod.mk.injEq] at hexec
        obtain ⟨rfl, rfl⟩ := hexec
        refine ⟨ht.push_none rfl, fun v hv => ?_⟩
        rw [hv] at hflight
        exact (ht.flights flight v hflight).mono hsub
      · cases hexec

end Cachic
