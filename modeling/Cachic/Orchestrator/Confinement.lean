import Cachic.Orchestrator.Process
import Cachic.Proxy.Handle

/-!
# What a request can reach

A request is about one object.  `Act.Own` are the steps about an object that talk to one URL
with one set of headers, and every program behind a request takes no others: those for the head
(`serveHead_own`) and those for the body after it (`serveHead_body_own`).  A
cell, a flight and a fill are reached through an identity the shared state hands out, which names
what it was made for: `Shared.Labelled` is that invariant, and `Act.Named` what it says of an
answer.
-/

namespace Cachic

open ActionLang Range

/-- The steps about an object, and the requests to a URL with given headers on its behalf. -/
def Act.Own (object : ObjectId) (url : String) (headers : HeaderMap) : Act → Prop
  | .now => True
  | .indexGet id _ => id = object
  | .indexPut id _ _ => id = object
  | .cell id => id = object
  | .cellInitialized c => c.object = object
  | .cellEnter c => c.object = object
  | .cellInit c _ => c.object = object
  | .cellAbandon c => c.object = object
  | .cellDrop id => id = object
  | .resolve asked => asked = url
  | .send _ request => request.url = url ∧ request.headers = headers
  | .storeContains key => key.object = object
  | .storeGet key => key.object = object
  | .storeInsert key _ _ => key.object = object
  | .storeEnter key => key.object = object
  | .storeFinish flight _ => flight.key.object = object
  | .storeAwait flight => flight.key.object = object
  | .fillClaim id => id = object
  | .fillRelease id => id = object
  | .fillPublish fill _ => fill.object = object
  | .fillWait fill _ => fill.object = object
  | _ => False

/-- The flight an answer of the store names. -/
def StoreEntry.flight : StoreEntry → Option FlightId
  | .lead flight => some flight
  | .join flight => some flight
  | _ => none

/-- The fill a claim is about. -/
def Role.fill : Role → FillId
  | .filler fill => fill
  | .subscriber fill => fill

/-- An identity names what it was asked for. -/
def Act.Named : (a : Act) → a.Res → Prop
  | .cell id, c => c.object = id
  | .storeEnter key, entry => ∀ flight, entry.flight = some flight → flight.key = key
  | .fillClaim id, role => role.fill.object = id
  | _, _ => True

/-! ## The programs -/

section Programs

variable {object : ObjectId} {url : String} {headers : HeaderMap}

theorem touch_own : (touch object).Within (Act.Own object url headers) Act.Named := by
  refine .perform_bind rfl fun found _ => ?_
  cases found with
  | none => trivial
  | some info =>
      refine .perform_bind trivial fun now _ => ?_
      split
      · trivial
      · exact .perform_bind rfl fun _ _ => trivial

theorem invalidate_own : (invalidate object).Within (Act.Own object url headers) Act.Named := by
  refine .perform_bind rfl fun found _ => ?_
  cases found with
  | none => trivial
  | some info => exact .perform_bind rfl fun _ _ => trivial

theorem attempt_own (client : ClientConfig) (purpose : Purpose) (range : Option (ℕ × ℕ))
    (start stop retries : ℕ) :
    (attempt client purpose { url := url, range := range, headers := headers } start stop
      retries).Within (Act.Own object url headers) Act.Named := by
  induction retries with
  | zero =>
      refine .perform_bind ⟨rfl, rfl⟩ fun answer _ => ?_
      cases answer <;> trivial
  | succ retries ih =>
      refine .perform_bind ⟨rfl, rfl⟩ fun answer _ => ?_
      cases answer with
      | ok response => trivial
      | error source =>
          dsimp only
          split
          · exact ih
          · trivial

theorem fetchRange_own (client : ClientConfig) (purpose : Purpose) (start stop : ℕ) :
    (fetchRange client purpose url headers start stop).Within (Act.Own object url headers)
      Act.Named := by
  refine .perform_bind rfl fun answer _ => ?_
  cases answer with
  | error e => trivial
  | ok _ => exact attempt_own client purpose _ start stop client.retries

theorem fetchStream_own (purpose : Purpose) :
    (fetchStream purpose url headers).Within (Act.Own object url headers) Act.Named := by
  refine .perform_bind rfl fun answer _ => ?_
  cases answer with
  | error e => trivial
  | ok _ =>
      refine .perform_bind ⟨rfl, rfl⟩ fun answer _ => ?_
      cases answer with
      | error source => trivial
      | ok response =>
          dsimp only
          split <;> trivial

theorem probe_own (cfg : Config) (key : CacheKey) (index : ℕ) :
    (probe cfg key object url headers index).Within (Act.Own object url headers) Act.Named := by
  refine .bind (fetchRange_own _ _ _ _) fun answer => ?_
  cases answer with
  | error e => trivial
  | ok response =>
      dsimp only
      split
      · trivial
      · refine .perform_bind rfl fun previous _ => .perform_bind trivial fun now _ => ?_
        split
        · exact .perform_bind rfl fun _ _ => trivial
        · exact .perform_bind rfl fun _ _ => .perform_bind rfl fun _ _ => trivial

theorem coldMetadata_own (cfg : Config) (key : CacheKey) (index : ℕ) :
    (coldMetadata cfg key object url headers index).Within (Act.Own object url headers)
      Act.Named := by
  refine .perform_bind rfl fun cell hcell => .perform_bind hcell fun _ _ =>
    .perform_bind hcell fun entry _ => ?_
  cases entry with
  | ready info => trivial
  | claimed =>
      refine .bind (probe_own cfg key index) fun result => ?_
      cases result with
      | ok info => exact .perform_bind hcell fun _ _ => trivial
      | error e => exact .perform_bind hcell fun _ _ => trivial

theorem metadata_own (cfg : Config) (key : CacheKey) (index : ℕ) :
    (metadata cfg key object url headers index).Within (Act.Own object url headers)
      Act.Named := by
  refine .perform_bind rfl fun found _ => ?_
  cases found with
  | none => exact coldMetadata_own cfg key index
  | some info =>
      dsimp only
      split
      · exact .bind touch_own fun _ => trivial
      · exact coldMetadata_own cfg key index

theorem countResident_own (generation : ℕ) (indices : List ℕ) :
    (countResident object generation indices).Within (Act.Own object url headers) Act.Named := by
  induction indices with
  | nil => trivial
  | cons index rest ih => exact .perform_bind rfl fun _ _ => .bind ih fun _ => trivial

theorem classifyPlan_own (cfg : Config) (info : ObjectMeta) (wanted : ByteRange)
    (probedHere : Bool) (probeIndex : ℕ) :
    (classifyPlan cfg object info wanted probedHere probeIndex).Within
      (Act.Own object url headers) Act.Named := by
  unfold classifyPlan
  split
  · trivial
  · exact .bind (countResident_own info.generation _) fun _ => trivial

theorem plan_own (cfg : Config) (key : CacheKey) (rawRange : Option String) :
    (plan cfg key url headers rawRange).Within (Act.Own (cfg.objectId key) url headers)
      Act.Named := by
  refine .bind (metadata_own cfg key _) fun result => ?_
  cases result with
  | error e => trivial
  | ok found =>
      dsimp only
      split
      · trivial
      · exact .bind (classifyPlan_own cfg _ _ _ _) fun _ => trivial

/-- A plan is for the object of its key. -/
theorem plan_returns (cfg : Config) (key : CacheKey) (rawRange : Option String) :
    (plan cfg key url headers rawRange).Returns fun result =>
      ∀ chosen, result = .ok chosen → chosen.object = cfg.objectId key := by
  refine .bind _ fun result => ?_
  cases result with
  | error e => exact fun chosen h => by cases h
  | ok found =>
      dsimp only
      split
      · exact fun chosen h => by cases h
      · refine .bind _ fun status chosen h => ?_
        cases h
        rfl

theorem bumpGeneration_own :
    (bumpGeneration object).Within (Act.Own object url headers) Act.Named :=
  .bind invalidate_own fun _ => .perform_bind rfl fun _ _ => trivial

theorem fetchSlice_own (cfg : Config) (plan : Plan) (index : ℕ) :
    (fetchSlice cfg plan url headers index).Within (Act.Own object url headers) Act.Named := by
  refine .bind (fetchRange_own _ _ _ _) fun answer => ?_
  cases answer with
  | error e => trivial
  | ok response =>
      dsimp only
      split
      · trivial
      · split <;> trivial

theorem getOrFetch_own {key : SliceKey} (hkey : key.object = object)
    {fetch : Task (Except FetchFailure (SliceValue × UpstreamResponse))}
    (hfetch : fetch.Within (Act.Own object url headers) Act.Named) :
    (getOrFetch key fetch).Within (Act.Own object url headers) Act.Named := by
  refine .perform_bind hkey fun entry hentry => ?_
  cases entry with
  | hit value => trivial
  | failed e => trivial
  | join flight =>
      have hflight : flight.key.object = object := by rw [hentry flight rfl, hkey]
      refine .perform_bind hflight fun result _ => ?_
      cases result <;> trivial
  | lead flight =>
      have hflight : flight.key.object = object := by rw [hentry flight rfl, hkey]
      refine .bind hfetch fun result => .perform_bind hflight fun answer _ => ?_
      cases answer <;> trivial

section Plans

variable {chosen : Plan}

theorem fetchFailed_own (hplan : chosen.object = object) (failure : StoreError × Bool) :
    (fetchFailed chosen url failure).Within (Act.Own object url headers) Act.Named := by
  unfold fetchFailed
  split
  · rw [hplan]
    exact .bind bumpGeneration_own fun _ => trivial
  · trivial

theorem staleOr_own (cfg : Config) {key : SliceKey} (hkey : key.object = object)
    (e : OrchestratorError) :
    (staleOr cfg key e).Within (Act.Own object url headers) Act.Named := by
  unfold staleOr
  split
  · refine .perform_bind hkey fun found _ => ?_
    split <;> trivial
  · trivial

theorem cutSlices_own (hplan : chosen.object = object) {fill : FillId}
    (hfill : fill.object = object) (sliceSize count : ℕ) (buffer : List UInt8) (index : ℕ) :
    (cutSlices chosen fill sliceSize count buffer index).Within (Act.Own object url headers)
      Act.Named := by
  induction count generalizing buffer index with
  | zero => trivial
  | succ count ih => exact .perform_bind hplan fun _ _ => .perform_bind hfill fun _ _ => ih _ _

theorem fillChunks_own (hplan : chosen.object = object) {fill : FillId}
    (hfill : fill.object = object) (sliceSize : ℕ) (chunks : List (List UInt8))
    (buffer : List UInt8) (index : ℕ) :
    (fillChunks chosen fill sliceSize chunks buffer index).Within (Act.Own object url headers)
      Act.Named := by
  induction chunks generalizing buffer index with
  | nil => trivial
  | cons chunk rest ih =>
      exact .bind (cutSlices_own hplan hfill sliceSize _ _ index) fun _ => ih _ _

theorem runFill_own (cfg : Config) (hplan : chosen.object = object) {fill : FillId}
    (hfill : fill.object = object) :
    (runFill cfg chosen url headers fill).Within (Act.Own object url headers) Act.Named := by
  refine .bind (fetchStream_own _) fun answer => ?_
  cases answer with
  | error e => trivial
  | ok stream =>
      refine .bind (fillChunks_own hplan hfill cfg.sliceSize _ _ _) fun left => ?_
      dsimp only
      split
      · trivial
      · split
        · trivial
        · exact .perform_bind hplan fun _ _ => .perform_bind hfill fun _ _ => trivial

theorem ensureFilled_own (cfg : Config) (hplan : chosen.object = object) (index : ℕ) :
    (ensureFilled cfg chosen url headers index).Within (Act.Own object url headers)
      Act.Named := by
  refine .perform_bind hplan fun resident _ => ?_
  split
  · trivial
  · refine .perform_bind hplan fun role hrole => ?_
    have hfill : role.fill.object = object := hrole.trans hplan
    cases role with
    | subscriber fill =>
        refine .perform_bind hfill fun answer _ => ?_
        cases answer <;> trivial
    | filler fill =>
        refine .bind (runFill_own cfg hplan hfill) fun result => .perform_bind hplan fun _ _ => ?_
        cases result with
        | error e => exact .perform_bind hfill fun _ _ => trivial
        | ok count =>
            refine .perform_bind hfill fun _ _ => ?_
            split <;> trivial

theorem slice_own (cfg : Config) (hplan : chosen.object = object) (index : ℕ) :
    (slice cfg chosen url headers index).Within (Act.Own object url headers) Act.Named := by
  unfold slice
  dsimp only
  split
  · refine .bind (ensureFilled_own cfg hplan index) fun result => ?_
    cases result with
    | error e => trivial
    | ok _ =>
        refine .perform_bind hplan fun found _ => ?_
        split <;> trivial
  · refine .bind (getOrFetch_own hplan (fetchSlice_own cfg chosen index)) fun result => ?_
    cases result with
    | ok value => trivial
    | error failure =>
        exact .bind (fetchFailed_own hplan failure) fun e => staleOr_own cfg hplan e

theorem runOn_own (cfg : Config) (hplan : chosen.object = object) (wanted : List ℕ) :
    (runOn cfg chosen url headers wanted).Within (Act.Own object url headers) Act.Named := by
  induction wanted with
  | nil => trivial
  | cons index rest ih => exact .bind (slice_own cfg hplan index) fun _ => ih

theorem sendSlices_own (cfg : Config) (hplan : chosen.object = object) (wanted : List ℕ) :
    (sendSlices cfg chosen url headers wanted).Within (Act.Own object url headers) Act.Named := by
  induction wanted with
  | nil => trivial
  | cons index rest ih =>
      refine .bind (slice_own cfg hplan index) fun result => ?_
      cases result with
      | error e => exact .bind (runOn_own cfg hplan _) fun _ => trivial
      | ok value =>
          dsimp only
          split
          · exact .bind (runOn_own cfg hplan _) fun _ => trivial
          · exact .bind ih fun _ => trivial

end Plans

/-- Up to its head, serving a request takes no step but those about its object, and asks no origin
but for its URL. -/
theorem serveHead_own (cfg : Config) (hostname : String) (key : CacheKey)
    (rawRange ifRange : Option String) (isHead : Bool) :
    (serveHead cfg hostname key url headers rawRange ifRange isHead).Within
      (Act.Own (cfg.objectId key) url headers) Act.Named := by
  refine .bind (plan_own cfg key rawRange) fun result => ?_
  cases result with
  | error e => cases e <;> trivial
  | ok first =>
      dsimp only
      split
      · refine .bind (plan_own cfg key none) fun again => ?_
        cases again <;> trivial
      · trivial

theorem respondHead_own (cfg : Config) (hostname : String) {chosen : Plan} {object : ObjectId}
    (hplan : chosen.object = object) (isHead : Bool) :
    ((respondHead cfg hostname chosen isHead).body cfg url headers).Within
      (Act.Own object url headers) Act.Named := by
  unfold respondHead Head.body
  dsimp only
  split
  · trivial
  · next hslices =>
      split at hslices
      · cases hslices
      · cases hslices
        exact sendSlices_own cfg hplan _

/-- And so does the body that follows. -/
theorem serveHead_body_own (cfg : Config) (hostname : String) (key : CacheKey)
    (rawRange ifRange : Option String) (isHead : Bool) :
    (serveHead cfg hostname key url headers rawRange ifRange isHead).Returns fun result =>
      ((Incoming.cached hostname key url headers rawRange ifRange isHead).body cfg result).Within
        (Act.Own (cfg.objectId key) url headers) Act.Named := by
  refine .bind_of_returns (plan_returns cfg key rawRange) fun result hresult => ?_
  cases result with
  | error e => cases e <;> trivial
  | ok first =>
      dsimp only
      split
      · refine .bind_of_returns (plan_returns cfg key none) fun again hagain => ?_
        cases again with
        | error e => trivial
        | ok second => exact respondHead_own cfg hostname (hagain second rfl) isHead
      · exact respondHead_own cfg hostname (hresult first rfl) isHead

end Programs

/-! ## Identities -/

/-- Identities are handed out for what they name. -/
structure Shared.Labelled (s : Shared) : Prop where
  cell : ∀ object cell, s.cellOf object = some cell → cell.object = object
  flight : ∀ key flight, s.flightOf key = some flight → flight.key = key
  fill : ∀ object fill, s.fillOf object = some fill → fill.object = object

theorem Shared.labelled_boot (index : ObjectIndex) (store : SliceKey → Option SliceValue)
    (fresh : ℕ) : (Shared.boot index store fresh).Labelled := by
  constructor
  all_goals
    intro key found h
    cases h

section Update

variable {K V : Type} [DecidableEq K] {P : K → V → Prop} {f : K → Option V}

/-- What holds of all entries of a table holds when one entry is changed to another it holds of. -/
theorem forall_update (h : ∀ k v, f k = some v → P k v) {key : K} {value : Option V}
    (hnew : ∀ v, value = some v → P key v) :
    ∀ k v, Function.update f key value k = some v → P k v :=
  (Function.forall_update_iff f fun k found => ∀ v, found = some v → P k v).mpr
    ⟨hnew, fun k _ => h k⟩

end Update

theorem Shared.Labelled.settle {s : Shared} (h : s.Labelled) (key : SliceKey) (choice : Choice) :
    (s.settle key choice).Labelled := by
  cases choice <;> exact ⟨h.cell, h.flight, h.fill⟩

theorem Shared.Labelled.land {s : Shared} (h : s.Labelled) (key : SliceKey) (value : SliceValue) :
    (s.land key value).Labelled :=
  ⟨h.cell, forall_update h.flight (by rintro _ ⟨⟩), h.fill⟩

/-- Every step keeps the identities in order, and answers with one of what was asked for. -/
theorem Shared.Labelled.exec {a : Act} {choice : Choice} {s s' : Shared} {r : a.Res}
    (h : s.Labelled) (hexec : Cachic.exec a choice s = some (r, s')) :
    s'.Labelled ∧ a.Named r := by
  cases a with
  | cell id =>
      simp only [Cachic.exec] at hexec
      split at hexec
      · next c hc =>
          cases hexec
          exact ⟨h, h.cell id _ hc⟩
      · cases hexec
        exact ⟨⟨forall_update h.cell (by rintro _ ⟨⟩; rfl), h.flight, h.fill⟩, rfl⟩
  | cellDrop id =>
      cases hexec
      exact ⟨⟨forall_update h.cell (by rintro _ ⟨⟩), h.flight, h.fill⟩, trivial⟩
  | storeEnter key =>
      have hsettled := h.settle key choice
      rcases exec_storeEnter_cases hexec with ⟨text, -, rfl, rfl⟩ | ⟨value, -, rfl, rfl⟩ |
        ⟨flight, -, hflight, rfl, rfl⟩ | ⟨-, -, rfl, rfl⟩
      · exact ⟨h, fun flight hflight => by cases hflight⟩
      · exact ⟨hsettled, fun flight hflight => by cases hflight⟩
      · refine ⟨hsettled, fun found hfound => ?_⟩
        cases hfound
        exact h.flight key flight hflight
      · refine ⟨⟨hsettled.cell, forall_update h.flight (by rintro _ ⟨⟩; rfl), hsettled.fill⟩,
          fun found hfound => ?_⟩
        cases hfound
        rfl
  | storeInsert key value writer =>
      cases hexec
      exact ⟨h.land key value, trivial⟩
  | storeFinish flight result =>
      rcases exec_storeFinish_cases hexec with ⟨-, value, response, -, -, rfl⟩ |
        ⟨-, cause, -, -, rfl⟩ | ⟨-, rfl | ⟨value, response, -, rfl⟩⟩
      · exact ⟨⟨h.cell, forall_update h.flight (by rintro _ ⟨⟩), h.fill⟩, trivial⟩
      · exact ⟨⟨h.cell, forall_update h.flight (by rintro _ ⟨⟩), h.fill⟩, trivial⟩
      · exact ⟨h, trivial⟩
      · exact ⟨h.land _ value, trivial⟩
  | fillClaim id =>
      simp only [Cachic.exec] at hexec
      split at hexec
      · next fill hfill =>
          cases hexec
          exact ⟨h, h.fill id _ hfill⟩
      · cases hexec
        exact ⟨⟨h.cell, h.flight, forall_update h.fill (by rintro _ ⟨⟩; rfl)⟩, rfl⟩
  | fillRelease id =>
      cases hexec
      exact ⟨⟨h.cell, h.flight, forall_update h.fill (by rintro _ ⟨⟩)⟩, trivial⟩
  | storeContains key =>
      cases hexec
      exact ⟨h.settle key choice, trivial⟩
  | storeGet key =>
      rcases exec_storeGet_cases hexec with ⟨text, -, rfl⟩ | ⟨-, rfl⟩
      · exact ⟨h, trivial⟩
      · exact ⟨h.settle key choice, trivial⟩
  | now | resolve | send => cases choice <;> cases hexec; exact ⟨h, trivial⟩
  | _ =>
      -- the tables of identities are not written
      simp only [Cachic.exec] at hexec
      repeat' split at hexec
      all_goals cases hexec
      all_goals exact ⟨⟨h.cell, h.flight, h.fill⟩, trivial⟩

end Cachic
