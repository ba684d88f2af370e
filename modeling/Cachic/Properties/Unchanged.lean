import Cachic.Properties.FillVersions
import Cachic.Properties.Visits

/-!
# An object that does not change

An origin that has one version of an object, and says so with the same validators on
every answer, gives no reason to invalidate anything.  Whether the cache agrees rests
on one fact about `Validators.matchesWith`: that the validators a probe recorded match
those of a later fetch.  They are the same validators, so all depends on whether
validators match themselves.

They do, unless the `ETag` is weak: a weak one equals nothing, by design.
`unchanged_stays_valid` is for every other pair of validators.  Over any interleaving
the object's generation stays what it was and no slice is refused; and of requests made
one after another each one is answered in full.
-/

namespace Cachic

open Range Tiling ActionLang ActionLang.Protocol

/-! ## Any interleaving -/

/-- Metadata recorded from an answer with the validators `v`, and never invalidated. -/
structure Settled (v : Validators) (info : ObjectMeta) : Prop where
  generation : info.generation = 0
  fresh : info.stale = false
  validators : info.validators = v

/-- All that is known about the object is settled. -/
structure SettledState (object : ObjectId) (v : Validators) (s : Shared) : Prop where
  index : ∀ info, s.index.get object = some info → Settled v info
  cells : ∀ cell info, cell.object = object → s.cells cell = .ready info → Settled v info
  cellOf : ∀ o cell, s.cellOf o = some cell → cell.object = o
  /-- No flight of the object has ended in a refusal. -/
  flights : ∀ flight expected found,
    s.flights flight = .done (.error (.fetch (.changed expected found))) →
      flight.key.object ≠ object

/-- Every success the origin reports for the object carries the validators `v`. -/
def Reports (object : ObjectId) (v : Validators) (e : Event Act Act.Res) : Prop :=
  ∀ x ∈ exchangeOf e, x.purpose.object = object → isSuccess x.raw.status = true →
    x.raw.head.validators = v

instance (object : ObjectId) (v : Validators) : DecidablePred (Reports object v) :=
  fun e => inferInstanceAs (Decidable (∀ x ∈ exchangeOf e, _ → _ → _))

/-- What may be written about the object. -/
def Writes (object : ObjectId) (v : Validators) : Act → Prop
  | .indexPut id info _ => id = object → Settled v info
  | .cellInit cell info => cell.object = object → Settled v info
  | .storeFinish flight result => ∀ expected found,
      result = .error (.changed expected found) → flight.key.object ≠ object
  | _ => True

/-- What is read about the object. -/
def Reads (object : ObjectId) (v : Validators) : (a : Act) → a.Res → Prop
  | .indexGet id _, found => id = object → ∀ info, found = some info → Settled v info
  | .cell o, cell => cell.object = o
  | .cellEnter cell, entry => cell.object = object → ∀ info, entry = .ready info → Settled v info
  | .storeEnter key, entry => ∀ flight, entry = .lead flight → flight.key = key
  | .storeFinish flight _, answer => ∀ expected found,
      answer = .error (.fetch (.changed expected found)) → flight.key.object ≠ object
  | _, _ => True

/-- The steps that can change what is known about objects. -/
def Act.teaches : Act → Bool
  | .indexPut _ _ _ => true
  | .indexRemove _ => true
  | .cell _ => true
  | .cellEnter _ => true
  | .cellInit _ _ => true
  | .cellAbandon _ => true
  | .cellDrop _ => true
  | _ => false

theorem exec_sameKnowledge {a : Act} {choice : Choice} {s s' : Shared} {r : a.Res}
    (ha : a.teaches = false) (h : exec a choice s = some (r, s')) : SameKnowledge s s' := by
  have hindex : Part.index ∉ a.writes := by cases a <;> simp [Act.writes, Act.teaches] at ha ⊢
  have hcells : Part.cells ∉ a.writes := by cases a <;> simp [Act.writes, Act.teaches] at ha ⊢
  obtain ⟨hcellOf, hcellsSame⟩ := exec_frame h hcells
  exact ⟨exec_frame h hindex, hcellOf, hcellsSame⟩

section Settled

variable {object : ObjectId} {v : Validators} {s s' : Shared}

namespace SettledState

theorem same (hs : SettledState object v s) (h : SameKnowledge s s')
    (hflights : ∀ flight expected found,
      s'.flights flight = .done (.error (.fetch (.changed expected found))) →
        s.flights flight = .done (.error (.fetch (.changed expected found))) ∨
          flight.key.object ≠ object) : SettledState object v s' where
  index := by rw [h.index]; exact hs.index
  cells := by rw [h.cells]; exact hs.cells
  cellOf := by rw [h.cellOf]; exact hs.cellOf
  flights flight expected found hdone :=
    (hflights flight expected found hdone).elim (hs.flights flight expected found) id

theorem setCell (hs : SettledState object v s) (cell : CellId) (state : Cell)
    (hstate : cell.object = object → ∀ info, state = .ready info → Settled v info) :
    SettledState object v { s with cells := Function.update s.cells cell state } := by
  have hcells := (Function.forall_update_iff s.cells
    (p := fun c x => ∀ info, c.object = object → x = .ready info → Settled v info)).mpr
      ⟨fun info hobject => hstate hobject info, fun c _ => hs.cells c⟩
  exact { hs with cells := hcells }

theorem setCellOf (hs : SettledState object v s) (o : ObjectId) (cell : Option CellId) (fresh : ℕ)
    (hcell : ∀ c, cell = some c → c.object = o) :
    SettledState object v
      { s with cellOf := Function.update s.cellOf o cell, fresh := fresh } := by
  have hcellOf := (Function.forall_update_iff s.cellOf
    (p := fun o x => ∀ c, x = some c → c.object = o)).mpr ⟨hcell, fun o _ => hs.cellOf o⟩
  exact { hs with cellOf := hcellOf }

theorem put (hs : SettledState object v s) {id : ObjectId} {info : ObjectMeta}
    (hinfo : id = object → Settled v info) :
    SettledState object v { s with index := s.index.put id info } := by
  refine { hs with index := fun found hfound => ?_ }
  rw [ObjectIndex.get_put] at hfound
  split at hfound
  · next heq =>
      cases hfound
      exact hinfo heq.symm
  · exact hs.index found hfound

theorem remove (hs : SettledState object v s) (ids : List ObjectId) :
    SettledState object v { s with index := s.index.removeAll ids } := by
  refine { hs with index := fun found hfound => ?_ }
  rw [ObjectIndex.get_removeAll] at hfound
  split at hfound
  · cases hfound
  · exact hs.index found hfound

theorem boot (hs : SettledState object v s) (store : SliceKey → Option SliceValue) (fresh : ℕ) :
    SettledState object v (Shared.boot s.index store fresh) where
  index := hs.index
  cells _ _ _ hready := by cases hready
  cellOf _ _ hcell := by cases hcell
  flights _ _ _ hdone := by cases hdone

end SettledState

/-- A flight that is set to something else than a refusal was a refusal before, if it is one. -/
theorem flight_of_update {f : FlightId → Flight} {flight other : FlightId} {state refusal : Flight}
    (h : Function.update f flight state other = refusal) (hstate : state ≠ refusal) :
    f other = refusal := by
  rw [Function.update_apply] at h
  split at h
  · exact absurd h hstate
  · exact h

/-- What a step makes of a flight that it does not finish. -/
theorem refusal_of_exec {a : Act} {choice : Choice} {r : a.Res}
    (ha : ∀ flight result, a ≠ .storeFinish flight result)
    (hexec : exec a choice s = some (r, s')) {flight : FlightId} {expected found : Validators}
    (hdone : s'.flights flight = .done (.error (.fetch (.changed expected found)))) :
    s.flights flight = .done (.error (.fetch (.changed expected found))) := by
  cases a with
  | storeInsert key value writer =>
      cases hexec
      cases hflight : s.flightOf key with
      | none =>
          simp only [Shared.land, hflight] at hdone
          exact hdone
      | some running =>
          simp only [Shared.land, hflight] at hdone
          exact flight_of_update hdone (by simp)
  | storeEnter key =>
      have hsettle : (s.settle key choice).flights = s.flights := by cases choice <;> rfl
      rcases exec_storeEnter_cases hexec with ⟨text, -, -, rfl⟩ | ⟨value, -, -, rfl⟩ |
        ⟨flight, -, -, -, rfl⟩ | ⟨-, -, -, rfl⟩
      · exact hdone
      · exact hsettle ▸ hdone
      · exact hsettle ▸ hdone
      · exact flight_of_update hdone (by simp)
  | storeFinish flight result => exact absurd rfl (ha flight result)
  | _ =>
      have hsame : Part.flights.Same s s' := exec_frame hexec (by simp [Act.writes])
      exact (congrFun hsame.2 flight).symm.trans hdone

/-- **One atomic step keeps the object settled.** -/
theorem settled_step {a : Act} {choice : Choice} {r : a.Res} (hs : SettledState object v s)
    (hwrites : Writes object v a) (hexec : exec a choice s = some (r, s')) :
    SettledState object v s' ∧ Reads object v a r := by
  cases a with
  | indexGet id site =>
      cases hexec
      exact ⟨hs, fun hid info hfound => hs.index info (hid ▸ hfound)⟩
  | indexPut id info site =>
      cases hexec
      exact ⟨hs.put hwrites, trivial⟩
  | indexRemove ids =>
      cases hexec
      exact ⟨hs.remove ids, trivial⟩
  | cell o =>
      simp only [exec] at hexec
      split at hexec
      · next cell hcell =>
          cases hexec
          exact ⟨hs, hs.cellOf o _ hcell⟩
      · cases hexec
        refine ⟨hs.setCellOf o _ _ fun c hc => ?_, rfl⟩
        cases hc
        rfl
  | cellEnter cell =>
      simp only [exec] at hexec
      split at hexec
      · next info hready =>
          cases hexec
          refine ⟨hs, fun hobject found hfound => ?_⟩
          cases hfound
          exact hs.cells cell info hobject hready
      · cases hexec
        exact ⟨hs.setCell _ _ fun _ info hready => (by cases hready),
          fun _ info hready => (by cases hready)⟩
      · cases hexec
  | cellInit cell info =>
      cases hexec
      refine ⟨hs.setCell _ _ fun hobject found hfound => ?_, trivial⟩
      cases hfound
      exact hwrites hobject
  | cellAbandon cell =>
      cases hexec
      exact ⟨hs.setCell _ _ fun _ info hready => (by cases hready), trivial⟩
  | cellDrop o =>
      cases hexec
      exact ⟨hs.setCellOf o none s.fresh fun c hc => (by cases hc), trivial⟩
  | storeEnter key =>
      refine ⟨hs.same (exec_sameKnowledge rfl hexec) fun _ _ _ hdone =>
        .inl (refusal_of_exec (fun _ _ => by simp) hexec hdone), fun flight hlead => ?_⟩
      rcases exec_storeEnter_cases hexec with ⟨text, -, rfl, -⟩ | ⟨value, -, rfl, -⟩ |
        ⟨flight, -, -, rfl, -⟩ | ⟨-, -, rfl, -⟩ <;> cases hlead
      rfl
  | storeFinish flight result =>
      have hsame : SameKnowledge s s' := exec_sameKnowledge rfl hexec
      rcases exec_storeFinish_cases hexec with ⟨-, value, response, -, rfl, rfl⟩ |
        ⟨-, cause, rfl, rfl, rfl⟩ | ⟨hdone, rfl | ⟨value, response, -, rfl⟩⟩
      · refine ⟨hs.same hsame fun _ _ _ hdone => .inl (flight_of_update hdone (by simp)),
          fun expected found hanswer => by cases hanswer⟩
      · refine ⟨hs.same hsame fun other expected found hdone => ?_,
          fun expected found hanswer => ?_⟩
        · by_cases hcause : cause = .changed expected found
          · by_cases hother : other = flight
            · exact .inr (hother ▸ hwrites expected found (by rw [hcause]))
            · exact .inl ((Function.update_of_ne hother _ _).symm.trans hdone)
          · exact .inl (flight_of_update hdone (by simpa using hcause))
        · cases hanswer
          exact hwrites expected found rfl
      · exact ⟨hs, fun expected found hanswer => hs.flights flight expected found
          (by rw [hdone, hanswer])⟩
      · refine ⟨hs.same hsame fun other expected found hother => .inl ?_,
          fun expected found hanswer => hs.flights flight expected found (by rw [hdone, hanswer])⟩
        have hinsert : exec (.storeInsert flight.key value .fill) choice s =
            some ((), s.land flight.key value) := rfl
        exact refusal_of_exec (fun _ _ => by simp) hinsert hother
  | _ =>
      exact ⟨hs.same (exec_sameKnowledge rfl hexec) fun _ _ _ hdone =>
        .inl (refusal_of_exec (fun _ _ => by simp) hexec hdone), trivial⟩

/-- The protocol of the tasks of a process whose origin reports the same validators on
every answer. -/
def settled (object : ObjectId) (v : Validators) : Protocol exec where
  inv _ := SettledState object v
  pre _ := Writes object v
  post _ := Reads object v
  admits := Reports object v
  pre_mono _ h := h
  step hinv hpre _ hexec := settled_step hinv hpre hexec

end Settled

/-! ### Each program -/

section Programs

variable {object : ObjectId} {v : Validators} {h : Hist} {α : Type}

/-- One action at the head of a program that writes nothing about the object. -/
theorem settled_ask {a : Act} {f : a.Res → Task α} {Q : Hist → α → Prop}
    (ha : Writes object v a)
    (hnext : ∀ h' r, Reports object v ⟨a, r⟩ → Reads object v a r →
      (settled object v).wp (f r) Q h') :
    (settled object v).wp (ask a >>= f) Q h :=
  ⟨ha, fun h' r _ _ hreports hreads => hnext h' r hreports hreads⟩

/-- A program that looks for slices is free. -/
theorem settled_looks {p : Task α} (hp : p.All fun a => a.looks = true) :
    (settled object v).wp p (fun _ _ => True) h :=
  wp_of_all (hp.imp fun a ha _ => by cases a <;> trivial) h

/-- So is one that only removes. -/
theorem settled_removes {p : Task α} (hp : p.All fun a => a.removes = true) :
    (settled object v).wp p (fun _ _ => True) h :=
  wp_of_all (hp.imp fun a ha _ => by cases a <;> trivial) h

theorem settled_attempt (client : ClientConfig) (purpose : Purpose) (request : Request)
    (start stop retries : ℕ) :
    (settled object v).wp (attempt client purpose request start stop retries)
      (fun _ r => ∀ response, r = .ok response → purpose.object = object →
        response.validators = v) h := by
  have hanswer : ∀ raw, Reports object v ⟨.send purpose request, .ok raw⟩ → ∀ response,
      receive client request.url start stop raw = .ok response → purpose.object = object →
        response.validators = v := by
    intro raw hreports response hreceive hobject
    obtain ⟨-, hheaders, hsuccess, -⟩ := receive_ok hreceive
    rw [← hreports _ rfl hobject hsuccess]
    simp only [UpstreamResponse.validators, UpstreamResponse.header, RawResponse.head, hheaders]
  induction retries generalizing h with
  | zero =>
      refine settled_ask trivial fun h₁ answer hreports _ => ?_
      cases answer with
      | error source => exact fun response hok => by cases hok
      | ok raw => exact hanswer raw hreports
  | succ retries ih =>
      refine settled_ask trivial fun h₁ answer hreports _ => ?_
      cases answer with
      | ok raw => exact hanswer raw hreports
      | error source =>
          simp only
          split
          · exact ih
          · exact fun response hok => by cases hok

theorem settled_fetchRange (client : ClientConfig) (purpose : Purpose) (url : String)
    (headers : HeaderMap) (start stop : ℕ) :
    (settled object v).wp (fetchRange client purpose url headers start stop)
      (fun _ r => ∀ response, r = .ok response → purpose.object = object →
        response.validators = v) h := by
  refine settled_ask trivial fun h₁ resolved _ _ => ?_
  cases resolved with
  | error e => exact fun response hok => by cases hok
  | ok _ => exact settled_attempt client purpose _ start stop client.retries

theorem settled_touch (id : ObjectId) :
    (settled object v).wp (touch id) (fun _ _ => True) h := by
  refine settled_ask trivial fun h₁ found _ hfound => ?_
  cases found with
  | none => trivial
  | some info =>
      refine settled_ask trivial fun h₂ now _ _ => ?_
      split
      · trivial
      · refine settled_ask (fun hid => ?_) fun _ _ _ _ => trivial
        have hsettled := hfound hid info rfl
        exact ⟨hsettled.generation, hsettled.fresh, hsettled.validators⟩

/-- Only another object may be invalidated. -/
theorem settled_invalidate {id : ObjectId} (hid : id ≠ object) :
    (settled object v).wp (invalidate id) (fun _ _ => True) h := by
  refine settled_ask trivial fun h₁ found _ _ => ?_
  cases found with
  | none => trivial
  | some info => exact settled_ask (fun heq => absurd heq hid) fun _ _ _ _ => trivial

/-- A probe records what the origin reports, at the generation it finds. -/
theorem settled_probe (cfg : Config) (key : CacheKey) (o : ObjectId) (url : String)
    (headers : HeaderMap) (index : ℕ) :
    (settled object v).wp (probe cfg key o url headers index)
      (fun _ r => ∀ info, r = .ok info → o = object → Settled v info) h := by
  refine wp_bind_of (settled_fetchRange cfg.client (.probe o index) url headers _ _)
    fun h₁ fetched _ hfetched => ?_
  cases fetched with
  | error e => exact fun info hok => by cases hok
  | ok response =>
      cases hshape : shape url response with
      | error e =>
          simp only [hshape]
          exact fun info hok => by cases hok
      | ok parts =>
          obtain ⟨totalLen, noRanges⟩ := parts
          simp only [hshape]
          refine settled_ask trivial fun h₂ previous _ hprevious => ?_
          refine settled_ask trivial fun h₃ now _ _ => ?_
          have hsettled : o = object → ∀ probed : Probed, probed.response = response →
              Settled v (probed.info (generationOf previous) now) := by
            rintro ho probed rfl
            refine ⟨?_, rfl, hfetched _ rfl ho⟩
            cases previous with
            | none => rfl
            | some entry => exact (hprevious ho entry rfl).generation
          cases noRanges with
          | true =>
              refine settled_ask (fun ho => hsettled ho _ rfl) fun h₄ _ _ _ => ?_
              rintro info hok ho
              cases hok
              exact hsettled ho _ rfl
          | false =>
              refine settled_ask trivial fun h₄ _ _ _ => ?_
              refine settled_ask (fun ho => hsettled ho _ rfl) fun h₅ _ _ _ => ?_
              rintro info hok ho
              cases hok
              exact hsettled ho _ rfl

theorem settled_coldMetadata (cfg : Config) (key : CacheKey) (o : ObjectId) (url : String)
    (headers : HeaderMap) (index : ℕ) :
    (settled object v).wp (coldMetadata cfg key o url headers index)
      (fun _ r => ∀ info probedHere, r = .ok (info, probedHere) → o = object → Settled v info)
      h := by
  refine settled_ask trivial fun h₁ cell _ hcell => ?_
  refine settled_ask trivial fun h₂ initialized _ _ => ?_
  refine settled_ask trivial fun h₃ entry _ hentry => ?_
  have hobject : o = object → cell.object = object :=
    fun ho => (show cell.object = o from hcell).trans ho
  cases entry with
  | ready info =>
      rintro info' probedHere hok ho
      cases hok
      exact hentry (hobject ho) info rfl
  | claimed =>
      refine wp_bind_of (settled_probe cfg key o url headers index) fun h₄ probed _ hprobed => ?_
      cases probed with
      | error e => exact settled_ask trivial fun _ _ _ _ info probedHere hok => by cases hok
      | ok info =>
          have hsettled : cell.object = object → Settled v info := fun hcellObject =>
            hprobed info rfl ((show cell.object = o from hcell).symm.trans hcellObject)
          refine settled_ask hsettled fun h₅ _ _ _ => ?_
          rintro info' probedHere hok ho
          cases hok
          exact hsettled (hobject ho)

theorem settled_metadata (cfg : Config) (key : CacheKey) (o : ObjectId) (url : String)
    (headers : HeaderMap) (index : ℕ) :
    (settled object v).wp (metadata cfg key o url headers index)
      (fun _ r => ∀ info probedHere, r = .ok (info, probedHere) → o = object → Settled v info)
      h := by
  refine settled_ask trivial fun h₁ found _ hfound => ?_
  cases found with
  | none => exact settled_coldMetadata cfg key o url headers index
  | some info =>
      simp only
      split
      · refine wp_bind_of (settled_touch o) fun h₂ _ _ _ => ?_
        rintro info' probedHere hok ho
        cases hok
        exact hfound ho info rfl
      · exact settled_coldMetadata cfg key o url headers index

theorem settled_plan (cfg : Config) (key : CacheKey) (url : String) (headers : HeaderMap)
    (rawRange : Option String) :
    (settled object v).wp (plan cfg key url headers rawRange)
      (fun _ r => ∀ p, r = .ok p → p.object = object → Settled v p.info) h := by
  refine wp_bind_of (settled_metadata cfg key (cfg.objectId key) url headers _)
    fun h₁ found _ hfound => ?_
  cases found with
  | error e => exact fun p hok => by cases hok
  | ok parts =>
      obtain ⟨info, probedHere⟩ := parts
      cases hwanted : wantedRange (requestedSpec rawRange) info.totalLen with
      | error e =>
          simp only [hwanted]
          exact fun p hok => by cases hok
      | ok wanted =>
          simp only [hwanted]
          refine wp_bind_of (settled_looks (classifyPlan_looks cfg _ info wanted probedHere _))
            fun h₂ cacheStatus _ _ => ?_
          rintro p hok hobject
          cases hok
          exact hfound info probedHere rfl hobject

/-- Filling does not look at validators. -/
theorem settled_ensureFilled (cfg : Config) (plan : Plan) (url : String) (headers : HeaderMap)
    (index : ℕ) :
    (settled object v).wp (ensureFilled cfg plan url headers index)
      (fun _ r => ∀ e, r = .error e → e.notices = false) h :=
  wp_of_all_returns ((ensureFilled_fills cfg plan url headers index).imp fun a ha _ => by
    cases a <;> trivial) ensureFilled_unnoticed h

/-- The fetch of a slice finds its validators unchanged. -/
theorem settled_fetchSlice (cfg : Config) {plan : Plan} (url : String) (headers : HeaderMap)
    (index : ℕ) (hself : v.matchesWith v = true)
    (hplan : plan.object = object → Settled v plan.info) :
    (settled object v).wp (fetchSlice cfg plan url headers index)
      (fun _ r => ∀ expected found, r = .error (.changed expected found) →
        plan.object ≠ object) h := by
  refine wp_bind_of (settled_fetchRange cfg.client (.slice (plan.sliceKey index)) url headers _ _)
    fun h₁ fetched _ hfetched => ?_
  cases fetched with
  | error e => exact fun expected found hok => by cases hok
  | ok response =>
      simp only
      split
      · next hmatch =>
          rintro expected found - hobject
          have hsame := hfetched response rfl hobject
          rw [(hplan hobject).validators, hsame, hself] at hmatch
          cases hmatch
      · split
        · exact fun expected found hok => by cases hok
        · exact fun expected found hok => by cases hok

theorem settled_getOrFetch {key : SliceKey}
    {fetch : Task (Except FetchFailure (SliceValue × UpstreamResponse))}
    (hfetch : ∀ h, (settled object v).wp fetch
      (fun _ r => ∀ expected found, r = .error (.changed expected found) → key.object ≠ object) h) :
    (settled object v).wp (getOrFetch key fetch)
      (fun _ r => ∀ expected found, r = .error (.fetch (.changed expected found), true) →
        key.object ≠ object) h := by
  refine settled_ask trivial fun h₁ entry _ hentry => ?_
  cases entry with
  | hit value => exact fun expected found hok => by cases hok
  | failed e => exact fun expected found hok => by cases hok
  | join flight =>
      refine settled_ask trivial fun h₂ result _ _ => ?_
      cases result with
      | ok value => exact fun expected found hok => by cases hok
      | error e => exact fun expected found hok => by cases hok
  | lead flight =>
      obtain rfl : flight.key = key := hentry flight rfl
      refine wp_bind_of (hfetch h₁) fun h₂ result _ hresult => ?_
      refine settled_ask hresult fun h₃ answer _ hanswer => ?_
      cases answer with
      | ok found => exact fun expected found hok => by cases hok
      | error cause =>
          rintro expected found hok
          cases hok
          exact hanswer expected found rfl

/-- A slice that is refused for its validators is of another object. -/
theorem settled_slice (cfg : Config) {plan : Plan} (url : String) (headers : HeaderMap)
    (index : ℕ) (hself : v.matchesWith v = true)
    (hplan : plan.object = object → Settled v plan.info) :
    (settled object v).wp (slice cfg plan url headers index)
      (fun _ r => ∀ url had now, r = .error (.validatorChanged url had now) →
        plan.object ≠ object) h := by
  unfold slice
  simp only
  split
  · refine wp_bind_of (settled_ensureFilled cfg plan url headers index)
      fun h₁ filled _ hfilled => ?_
    cases filled with
    | error e =>
        rintro url' had now hok
        cases hok
        cases hfilled _ rfl
    | ok _ =>
        refine settled_ask trivial fun h₂ found _ _ => ?_
        rcases found with _ | _ | value
        · exact fun url had now hok => by cases hok
        · exact fun url had now hok => by cases hok
        · exact fun url had now hok => by cases hok
  · refine wp_bind_of (settled_getOrFetch fun h =>
      settled_fetchSlice cfg url headers index hself hplan) fun h₁ result _ hresult => ?_
    cases result with
    | ok value => exact fun url had now hok => by cases hok
    | error failure =>
        refine wp_bind_of (M := fun _ e => ∀ url had now, e = .validatorChanged url had now →
          plan.object ≠ object) ?_ fun h₂ e _ he => ?_
        · obtain ⟨e, own⟩ := failure
          unfold fetchFailed
          split
          · next expected found heq =>
              cases heq
              have hother := hresult expected found rfl
              refine wp_bind_of (M := fun _ _ => True) ?_ fun _ _ _ _ _ _ _ _ => hother
              exact wp_bind_of (settled_invalidate hother) fun _ _ _ _ =>
                settled_ask trivial fun _ _ _ _ => trivial
          · exact fun url had now hok => by cases hok
        · unfold staleOr
          split
          · refine settled_ask trivial fun h₃ found _ _ => ?_
            rcases found with _ | _ | value
            · exact fun url had now hok => he url had now (Except.error.inj hok)
            · exact fun url had now hok => he url had now (Except.error.inj hok)
            · exact fun url had now hok => by cases hok
          · exact fun url had now hok => he url had now (Except.error.inj hok)

end Programs

/-! ### The process -/

/-- What a finished job says about the object. -/
def SettledPost (object : ObjectId) (v : Validators) (_ : Hist) : Outcome → Prop
  | .planned (.ok plan) => plan.object = object → Settled v plan.info
  | .sliced plan _ (.error (.validatorChanged _ _ _)) => plan.object ≠ object
  | _ => True

namespace Process

section

variable {object : ObjectId} {v : Validators} (hself : v.matchesWith v = true) {p p' : Process}

include hself

theorem settled_job (hp : p.pool.Holds (settled object v) (SettledPost object v)) {job : Job}
    (hjob : job ≠ .invalidate object) (hallow : p.allows job = true) :
    (settled object v).wp (job.task p.cfg) (SettledPost object v) p.pool.hist := by
  cases job with
  | plan key url headers rawRange =>
      refine wp_bind_of (settled_plan p.cfg key url headers rawRange) fun h result _ hresult => ?_
      cases result with
      | error e => trivial
      | ok plan => exact hresult plan rfl
  | slice plan url headers index =>
      simp only [allows, Bool.and_eq_true, decide_eq_true_eq] at hallow
      have hplan : SettledPost object v p.pool.hist (.planned (.ok plan)) :=
        hp.result hallow.1.1
      refine wp_bind_of (settled_slice p.cfg url headers index hself hplan)
        fun h result _ hresult => ?_
      cases result with
      | ok value => trivial
      | error e =>
          cases e with
          | validatorChanged url had now => exact hresult url had now rfl
          | _ => trivial
  | probe key url headers index =>
      exact wp_bind_of (settled_probe p.cfg key _ url headers index) fun _ _ _ _ => trivial
  | touch id => exact wp_bind_of (settled_touch id) fun _ _ _ _ => trivial
  | invalidate id =>
      have hid : id ≠ object := fun heq => hjob (by rw [heq])
      exact wp_bind_of (settled_invalidate hid) fun _ _ _ _ => trivial
  | prune maxAge => exact wp_bind_of (settled_removes (prune_removes maxAge)) fun _ _ _ _ => trivial
  | purge start =>
      exact wp_bind_of (settled_removes (purge_removes p.cfg start)) fun _ _ _ _ => trivial

theorem settled_process_step (hp : p.pool.Holds (settled object v) (SettledPost object v))
    {st : Step} (hst : st ≠ .spawn (.invalidate object)) (hstep : p.step st = some p')
    (hreports : ∀ e ∈ p'.pool.hist, Reports object v e) :
    p'.pool.Holds (settled object v) (SettledPost object v) := by
  cases st with
  | spawn job =>
      simp only [step] at hstep
      split at hstep
      · next hallow =>
          cases hstep
          exact hp.spawn (settled_job hself hp (fun heq => hst (by rw [heq])) hallow)
      · cases hstep
  | task tid choice =>
      simp only [step, Option.map_eq_some_iff] at hstep
      obtain ⟨pool, hsched, rfl⟩ := hstep
      exact hp.sched (fun _ _ _ _ hpost => hpost) hsched hreports
  | lose ids =>
      cases hstep
      exact hp.outside (hp.inv.remove ids)
  | restart cfg force found =>
      obtain ⟨file, -, -, rfl⟩ := restart_cases hstep
      exact ⟨hp.inv.boot _ _, fun thread hthread => by cases hthread⟩

/-- **Every run keeps the object settled**, as long as nobody asks for it to be
invalidated. -/
theorem settled_run {cfg : Config} {steps : List Step}
    (hrun : (first cfg).run steps = some p)
    (hsteps : ∀ st ∈ steps, st ≠ .spawn (.invalidate object))
    (hreports : ∀ e ∈ p.pool.hist, Reports object v e) :
    p.pool.Holds (settled object v) (SettledPost object v) := by
  refine run_induct_hist (H := Reports object v) (C := fun st => st ≠ .spawn (.invalidate object))
    (I := fun q => q.pool.Holds (settled object v) (SettledPost object v))
    (fun q st q' hq hst hstep => settled_process_step hself hq hst hstep) ?_ hsteps hrun hreports
  refine ⟨⟨?_, ?_, ?_, ?_⟩, fun thread hthread => by cases hthread⟩
  · intro info hget
    cases hget
  · intro cell info _ hready
    cases hready
  · intro o cell hcell
    cases hcell
  · intro flight expected found hdone
    cases hdone

end

end Process

/-- **An unchanged object is never invalidated**, whatever validators its origin reports
on every answer, as long as its `ETag` is not a weak one.

In every interleaving the object stays at generation 0 and current, and no slice of it
is refused for its validators; that takes nothing from the origin but its validators.
If the origin also answers correctly, then of requests made one after another, from any
calm state, each one that asks for some byte is answered with exactly those bytes, and
the generation stays what it was. -/
theorem unchanged_stays_valid (object : ObjectId) {v : Validators}
    (hstrong : ∀ tag ∈ v.etag, isWeak tag = false) (cfg : Config) :
    (∀ steps p, (Process.first cfg).run steps = some p →
      (∀ st ∈ steps, st ≠ .spawn (.invalidate object)) →
      (∀ e ∈ p.pool.hist, Reports object v e) →
      (∀ info, p.pool.shared.index.get object = some info →
        info.generation = 0 ∧ info.stale = false) ∧
      (∀ plan, Outcome.planned (.ok plan) ∈ p.pool.results → plan.object = object →
        plan.info.generation = 0) ∧
      ∀ plan index url had now,
        Outcome.sliced plan index (.error (.validatorChanged url had now)) ∈ p.pool.results →
        plan.object ≠ object) ∧
    ∀ content generation s visits, Sliceable cfg content →
      Calm cfg.sliceSize content v object generation s →
      (∀ visit ∈ visits, Visit.Fair cfg content v object visit) →
      ∃ results s', serveAll cfg visits s = some (results, s') ∧
        List.Forall₂ (fun visit result =>
          Satisfiable content (requestedSpec visit.rawRange) → ∃ response, result = .ok response ∧
            RightAnswer content (requestedSpec visit.rawRange) response) visits results ∧
        Calm cfg.sliceSize content v object generation s' := by
  have hself : v.matchesWith v = true := Validators.matches_self_iff.mpr hstrong
  constructor
  · intro steps p hrun hsteps hreports
    have hholds := Process.settled_run hself hrun hsteps hreports
    refine ⟨fun info hinfo => ?_, fun plan hplanned hobject => ?_, ?_⟩
    · have hsettled := hholds.inv.index info hinfo
      exact ⟨hsettled.generation, hsettled.fresh⟩
    · have hpost : SettledPost object v p.pool.hist (.planned (.ok plan)) :=
        hholds.result hplanned
      exact (hpost hobject).generation
    · intro plan index url had now hsliced
      exact hholds.result hsliced
  · intro content generation s visits hsliceable hcalm hfair
    exact serveAll_induct (fun visit hvisit s hs =>
      hs.serve hself hsliceable (hfair visit hvisit) fun _ _ => trivial) hcalm

namespace Scenario

/-- One request in the process, and two in sequence. -/
theorem unchanged_stays_valid_strong :
    (∃ p, (Process.first config).run
        (coldRequest 0 "bytes=0-" (reply "\"v1\"" "bytes 0-0/1" [1]) 1) =
        some p ∧ (∀ e ∈ p.pool.hist, Reports object (validatorsOf strong) e) ∧
      ∀ info, p.pool.shared.index.get object = some info →
        info.generation = 0 ∧ info.stale = false) ∧
    ∃ results s', serveAll config ([none, some "bytes=1-"].map (visit [1, 2, 3] strong))
      Shared.init = some (results, s') ∧ results.length = 2 := by
  have hvalid := @unchanged_stays_valid object (validatorsOf strong) (by decide) config
  constructor
  · obtain ⟨p, hrun, hreports⟩ := exists_run (Process.first config)
      (coldRequest 0 "bytes=0-" (reply "\"v1\"" "bytes 0-0/1" [1]) 1)
      (fun p => ∀ e ∈ p.pool.hist, Reports object (validatorsOf strong) e) (by decide +kernel)
    refine ⟨p, hrun, hreports, (hvalid.1 _ p hrun ?_ hreports).1⟩
    intro st hst
    simp only [coldRequest, request, tasks, List.mem_cons, List.mem_map] at hst
    rcases hst with rfl | ⟨choice, -, rfl⟩
    · simp
    · simp
  · obtain ⟨results, s', hrun, hresults, -⟩ := hvalid.2 [1, 2, 3] 0 Shared.init
      ([none, some "bytes=1-"].map (visit [1, 2, 3] strong)) ⟨by decide, by decide, by decide⟩
      (calm_init _ _ _ _) fun other hother => by
        obtain ⟨range, -, rfl⟩ := List.mem_map.mp hother
        exact visit_fair (by decide) strong range
    exact ⟨results, s', hrun, hresults.length_eq.symm⟩

/-- The fields of a version with a weak `ETag`. -/
def weak : HeaderMap := [("etag", "W/\"v1\"")]

/-- The bodies of answers, and the generation afterwards. -/
def served (content : List UInt8) (fields : HeaderMap) (ranges : List (Option String)) :
    Option (List (Option (ℕ × Bool)) × ℕ) :=
  (serveAll config (ranges.map (visit content fields)) Shared.init).map fun r =>
    (r.1.map fun result => result.toOption.map fun response =>
      (response.body.sent.length, response.body.failure.isNone),
      generationOf (r.2.index.get object))

/-- An object of two slices under a weak `ETag`: each request fails behind the first
slice, and takes the object to another generation. -/
theorem weak_tag_invalidates :
    (∀ rawRange, (visit (List.replicate 4097 7) weak rawRange).Fair config
      (List.replicate 4097 7) (validatorsOf weak) object) ∧
    served (List.replicate 4097 7) weak [none] = some ([some (4096, false)], 1) ∧
    served (List.replicate 4097 7) weak [none, none] =
      some ([some (4096, false), some (4096, false)], 2) := by
  refine ⟨fun rawRange => visit_fair ?_ weak rawRange, by decide +kernel, by decide +kernel⟩
  rw [List.length_replicate]
  decide

end Scenario

end Cachic
