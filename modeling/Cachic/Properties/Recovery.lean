import Cachic.Properties.FillPath
import Cachic.Properties.Visits

/-!
# Recovering from an origin that misbehaved

Whatever an origin has answered so far, it answers correctly from now on, and one request
is repeated alone.  What happens then is decided by what the bad answers left behind.

* The slices the request takes are exact or missing, and the metadata is right, or there is none
  (`CalmOn`): every repetition is answered.
* Metadata of another version (`Outdated`): the first slice that has to be fetched shows
  that the validators changed.  That repetition is broken off, the object starts a new
  generation, and the next one finds the state calm.
* Metadata that says ranges are ignored (`Ignored`): the object is filled from one stream,
  and if its length was reported right every repetition is answered.

Nothing else is ever repaired.  A slice a probe stored short stays, and so does a wrong
length under the right validators: neither is compared with anything that changes.

## How far a change is noticed

The slices of a body are tasks of their own, and those of the read-ahead window that were
started go on when the body is broken off (`runOn`).  Each of them that has to be fetched
notices the change again and starts one more generation.  How many generations a broken-off
repetition goes through therefore depends on the window, and `Outdated` asks for exact slices
at each of them; `Noticed` counts them.  A repetition of a request continues no earlier one, so
`maybe_prefetch` starts nothing.
-/

namespace Cachic

open Range Tiling ActionLang

/-! ## New generations -/

/-- The generation a probe continues with after `n` bumps. -/
def bumpedGeneration (n : ℕ) (previous : Option ObjectMeta) : ℕ :=
  ((previous.map ObjectMeta.generation).map (fun generation => wrapAdd 32 generation 1)^[n]).getD 0

theorem get_bumped (s : Shared) (object : ObjectId) :
    (s.bumped object).index.get object = (s.index.get object).map fun info =>
      { info with generation := wrapAdd 32 info.generation 1, stale := true } := by
  unfold Shared.bumped
  cases hentry : s.index.get object with
  | none => simp [hentry]
  | some info => simp [ObjectIndex.get_put_self]

/-- Since `s₀` a change of the object was noticed `n` times, and nothing was stored. -/
structure Noticed (object : ObjectId) (n : ℕ) (s₀ s : Shared) : Prop where
  generation : (s.index.get object).map ObjectMeta.generation =
    ((s₀.index.get object).map ObjectMeta.generation).map
      (fun generation => wrapAdd 32 generation 1)^[n]
  store : ∀ {key value}, s.store key = some value → s₀.store key = some value
  flightOf : s.flightOf = s₀.flightOf
  spare : ∀ serial, s.fresh ≤ serial → s.cells ⟨object, serial⟩ = .empty
  forgotten : n ≠ 0 → (∀ entry ∈ s.index.get object, entry.stale = true) ∧
    s.cellOf object = none

namespace Noticed

variable {object : ObjectId} {n : ℕ} {s₀ s s' : Shared}

theorem evicted (h : Noticed object n s₀ s) (hevicted : Evicted s s') :
    Noticed object n s₀ s' where
  generation := by rw [hevicted.index, h.generation]
  store := fun hvalue => h.store (hevicted.of_some hvalue)
  flightOf := by rw [hevicted.flightOf, h.flightOf]
  spare := by
    rw [hevicted.rest]
    exact h.spare
  forgotten := by
    rw [hevicted.index, hevicted.cellOf]
    exact h.forgotten

/-- A fetch that failed has used up an identity, and left everything else as it was. -/
theorem failed (h : Noticed object n s₀ s) (hindex : s'.index = s.index)
    (hstore : s'.store = s.store) (hflightOf : s'.flightOf = s.flightOf)
    (hcellOf : s'.cellOf = s.cellOf) (hcells : s'.cells = s.cells) (hfresh : s.fresh ≤ s'.fresh) :
    Noticed object n s₀ s' where
  generation := by rw [hindex, h.generation]
  store := fun hvalue => h.store (hstore ▸ hvalue)
  flightOf := hflightOf.trans h.flightOf
  spare := fun serial hserial => by
    rw [hcells]
    exact h.spare serial (le_trans hfresh hserial)
  forgotten := by
    rw [hindex, hcellOf]
    exact h.forgotten

theorem bumped (h : Noticed object n s₀ s) : Noticed object (n + 1) s₀ (s.bumped object) where
  generation := by
    rw [get_bumped, Option.map_map, Function.iterate_succ']
    refine Eq.trans ?_ (Option.map_map _ _ _)
    rw [← h.generation, Option.map_map]
    rfl
  store := h.store
  flightOf := h.flightOf
  spare := h.spare
  forgotten := fun _ => by
    refine ⟨fun entry hentry => ?_, Function.update_self _ _ _⟩
    rw [get_bumped, Option.mem_map] at hentry
    obtain ⟨info, -, rfl⟩ := hentry
    rfl

/-- What was noticed is calm, if the slices of the generation that was come to are exact. -/
theorem calm {among : ℕ → Prop} {sliceSize : ℕ} {content : List UInt8} {v : Validators}
    (h : Noticed object n s₀ s) (hn : n ≠ 0)
    (hresident : ResidentOn among sliceSize content object
      (bumpedGeneration n (s₀.index.get object)) s₀) :
    CalmOn among sliceSize content v object (bumpedGeneration n (s₀.index.get object)) s := by
  obtain ⟨hstale, hcell⟩ := h.forgotten hn
  refine ⟨⟨fun i value hi hvalue => hresident.exact i value hi (h.store hvalue),
    fun i => by rw [h.flightOf, hresident.idle i]⟩, .inl ⟨⟨hstale, ?_⟩, ?_⟩⟩
  · rw [Shared.cellFor, hcell]
    exact h.spare _ le_rfl
  · rw [generationOf, h.generation, bumpedGeneration]

end Noticed

/-! ## Metadata of another version -/

/-- Sending the slices of `wanted` in order comes to notice a change.  A slice that is not there
and begins inside the object is fetched; one that is too short to be sent breaks the body off,
and then one of those started ahead of it has to be fetched. -/
def Notices (cfg : Config) (content : List UInt8) (object : ObjectId) (generation : ℕ)
    (wanted : ByteRange) (s : Shared) : List ℕ → Prop
  | [] => False
  | i :: rest =>
      i * cfg.sliceSize < content.length ∧
        ∀ value, s.store ⟨object, generation, i⟩ = some value →
          match value.payloadWindow (payloadWindow i cfg.sliceSize wanted) with
          | .ok _ => Notices cfg content object generation wanted s rest
          | .error _ => ∃ j ∈ rest.take (cfg.readahead - 1),
              j * cfg.sliceSize < content.length ∧ s.store ⟨object, generation, j⟩ = none

section Outdated

variable {choose : Act → Shared → Choice} {cfg : Config} {plan : Plan} {content : List UInt8}
  {v : Validators} {n : ℕ} {s₀ s : Shared} {url : String} {headers : HeaderMap} {i : ℕ}

/-- A correct answer to the extent of a slice is refused when the validators are not the
ones that are known. -/
theorem acceptSlice_outdated {raw : RawResponse}
    (hdiffers : plan.info.validators.matchesWith v = false)
    (hceiling : cfg.sliceSize ≤ cfg.client.maxBodyBytes) (hindex : i < 2 ^ 32)
    (hi : i * cfg.sliceSize < content.length)
    (hraw : AnswersCorrectly content v
      { url := url
        range := some ((sliceExtent i cfg.sliceSize plan.totalLen).start,
          (sliceExtent i cfg.sliceSize plan.totalLen).stop)
        headers := headers } raw) :
    acceptSlice cfg plan i (receive cfg.client url (sliceExtent i cfg.sliceSize plan.totalLen).start
      (sliceExtent i cfg.sliceSize plan.totalLen).stop raw) =
        .error (.changed plan.info.validators v) := by
  have hword := cfg.sliceSize_valid.offset_lt hindex
  have hlen : (window content (sliceExtent i cfg.sliceSize plan.totalLen).start
      ((sliceExtent i cfg.sliceSize plan.totalLen).stop + 1)).length ≤ cfg.sliceSize :=
    length_window_sliceExtent_le cfg.sliceSize_pos hword
  obtain ⟨hreceive, -, hvalidators⟩ := receive_correct hraw hi (hlen.trans hceiling)
    (lt_of_le_of_lt (hlen.trans (Nat.le_add_left _ _)) hword)
  rw [hreceive]
  have hfound : ∀ body, UpstreamResponse.validators ⟨206, raw.headers, body⟩ = v :=
    fun _ => hvalidators
  simp only [acceptSlice, hfound, hdiffers, Bool.not_false, if_true]

/-- A correct answer to a slice behind the end of the object is an error. -/
theorem acceptSlice_outside {raw : RawResponse} (hi : ¬ i * cfg.sliceSize < content.length)
    (hraw : AnswersCorrectly content v
      { url := url
        range := some ((sliceExtent i cfg.sliceSize plan.totalLen).start,
          (sliceExtent i cfg.sliceSize plan.totalLen).stop)
        headers := headers } raw) :
    ∃ e, acceptSlice cfg plan i (receive cfg.client url
      (sliceExtent i cfg.sliceSize plan.totalLen).start
      (sliceExtent i cfg.sliceSize plan.totalLen).stop raw) = .error (.upstream e) := by
  have hstart : ¬ (sliceExtent i cfg.sliceSize plan.totalLen).start < content.length := hi
  simp only [AnswersCorrectly, hstart, if_false] at hraw
  cases hreceive : receive cfg.client url (sliceExtent i cfg.sliceSize plan.totalLen).start
      (sliceExtent i cfg.sliceSize plan.totalLen).stop raw with
  | error e => exact ⟨e, rfl⟩
  | ok response =>
      obtain ⟨-, -, hsuccess, -⟩ := receive_ok hreceive
      rw [hraw] at hsuccess
      cases hsuccess

section World

variable (hsolo : Solo (AnswersCorrectly content v) choose) (hworks : StoreWorks choose)
  (hranges : plan.info.noRanges = false) (hdiffers : plan.info.validators.matchesWith v = false)
  (hceiling : cfg.sliceSize ≤ cfg.client.maxBodyBytes)
  (hidle : ∀ i, s₀.flightOf (plan.sliceKey i) = none)

include hsolo hworks hranges hdiffers hceiling hidle

/-- **A slice of an object with outdated metadata**: it is there, or the fetch of it
notices; behind the end of the object the fetch fails without noticing. -/
theorem run_slice_outdated (h : Noticed plan.object n s₀ s) (hindex : i < 2 ^ 32) (url : String)
    (headers : HeaderMap) :
    ∃ result s', (slice cfg plan url headers i).run exec choose s = some (result, s') ∧
      ((∃ value, result = .ok value ∧ s₀.store (plan.sliceKey i) = some value ∧
          Noticed plan.object n s₀ s') ∨
        ∃ e, result = .error e ∧
          ((i * cfg.sliceSize < content.length ∧ Noticed plan.object (n + 1) s₀ s') ∨
            (¬ i * cfg.sliceSize < content.length ∧ Noticed plan.object n s₀ s'))) := by
  obtain ⟨entry, s₁, henter⟩ := exec_storeEnter_enabled (plan.sliceKey i)
    (choose (.storeEnter (plan.sliceKey i)) s) s
  have hsettled := h.evicted
    (Evicted.settle s (plan.sliceKey i) (choose (.storeEnter (plan.sliceKey i)) s))
  have hfree := hidle i
  rw [← h.flightOf] at hfree
  rcases exec_storeEnter_cases henter with ⟨text, hfails, -, -⟩ | ⟨value, hvalue, rfl, rfl⟩ |
    ⟨flight, -, hflight, -, -⟩ | ⟨hmissing, -, rfl, hs₁⟩
  · exact absurd hfails (hworks _ _ _)
  · have hhit : (getOrFetch (plan.sliceKey i) (fetchSlice cfg plan url headers i)).run exec choose
        s = some (.ok value, s.settle (plan.sliceKey i)
          (choose (.storeEnter (plan.sliceKey i)) s)) :=
      Prog.run_perform_bind_of_eq exec henter _
    refine ⟨.ok value, _, ?_, .inl ⟨value, rfl, hsettled.store hvalue, hsettled⟩⟩
    rw [slice, hranges]
    exact Prog.run_bind_of_eq exec hhit _
  · rw [hfree] at hflight
    cases hflight
  · obtain ⟨raw, hraw, hfetch⟩ := hsolo.run_fetchSlice cfg plan url headers i s₁
    have hstore : s₁.store (plan.sliceKey i) = none := by rw [hs₁]; exact hmissing
    have hfailed : ∀ cause, Noticed plan.object n s₀
        (s₁.finished ⟨plan.sliceKey i, s.fresh⟩ (.error cause)) := by
      intro cause
      subst hs₁
      refine hsettled.failed rfl rfl ?_ rfl rfl ?_
      · have hback : Function.update (Function.update s.flightOf (plan.sliceKey i)
            (some ⟨plan.sliceKey i, s.fresh⟩)) (plan.sliceKey i) none = s.flightOf := by
          rw [Function.update_idem, Function.update_eq_self_iff, hfree]
        rw [hsettled.flightOf, ← h.flightOf]
        exact hback
      · rw [settle_fresh]
        exact Nat.le_succ _
    by_cases hi : i * cfg.sliceSize < content.length
    · rw [acceptSlice_outdated hdiffers hceiling hindex hi hraw] at hfetch
      obtain ⟨choice, hrun⟩ := run_slice_failed hranges henter hfetch hstore
      exact ⟨_, _, hrun, .inr ⟨_, rfl, .inl ⟨hi, (hfailed _).bumped.evicted (.settle _ _ choice)⟩⟩⟩
    · obtain ⟨e, hrefused⟩ := acceptSlice_outside hi hraw
      rw [hrefused] at hfetch
      obtain ⟨choice, hrun⟩ := run_slice_failed hranges henter hfetch hstore
      exact ⟨_, _, hrun, .inr ⟨_, rfl, .inr ⟨hi, (hfailed _).evicted (.settle _ _ choice)⟩⟩⟩

/-- Slices that run on notice at most once each, and do if one has to be fetched. -/
theorem run_runOn_outdated (h : Noticed plan.object n s₀ s) {wanted : List ℕ}
    (hindex : ∀ i ∈ wanted, i < 2 ^ 32) (url : String) (headers : HeaderMap) :
    ∃ s' m, (runOn cfg plan url headers wanted).run exec choose s = some ((), s') ∧
      Noticed plan.object m s₀ s' ∧ n ≤ m ∧ m ≤ n + wanted.length ∧
      ((∃ j ∈ wanted, j * cfg.sliceSize < content.length ∧
        s₀.store (plan.sliceKey j) = none) → n < m) := by
  induction wanted generalizing n s with
  | nil => exact ⟨s, n, rfl, h, le_rfl, le_rfl, fun ⟨j, hj, _⟩ => by cases hj⟩
  | cons i rest ih =>
      obtain ⟨result, s₁, hslice, hresult⟩ := run_slice_outdated hsolo hworks hranges hdiffers
        hceiling hidle h (hindex i List.mem_cons_self) url headers
      have hrest := fun j hj => hindex j (List.mem_cons_of_mem i hj)
      -- one slice notices once, or not at all and then it was no reason to
      have hone : ∃ k, Noticed plan.object k s₀ s₁ ∧ n ≤ k ∧ k ≤ n + 1 ∧
          (i * cfg.sliceSize < content.length → s₀.store (plan.sliceKey i) = none → n < k) := by
        rcases hresult with ⟨value, -, hvalue, h₁⟩ | ⟨e, -, ⟨-, h₁⟩ | ⟨hi, h₁⟩⟩
        · exact ⟨n, h₁, le_rfl, Nat.le_succ n, fun _ hnone => by rw [hnone] at hvalue; cases hvalue⟩
        · exact ⟨n + 1, h₁, Nat.le_succ n, le_rfl, fun _ _ => Nat.lt_succ_self n⟩
        · exact ⟨n, h₁, le_rfl, Nat.le_succ n, fun hin => absurd hin hi⟩
      obtain ⟨k, h₁, hle, hge, hmust⟩ := hone
      obtain ⟨s', m, hrun, h', hkm, hmk, hlater⟩ := ih h₁ hrest
      refine ⟨s', m, (Prog.run_bind_of_eq exec hslice _).trans hrun, h', le_trans hle hkm, ?_, ?_⟩
      · rw [List.length_cons]
        omega
      · rintro ⟨j, hj, hin, hnone⟩
        rcases List.mem_cons.mp hj with rfl | hj
        · exact lt_of_lt_of_le (hmust hin hnone) hkm
        · exact lt_of_le_of_lt hle (hlater ⟨j, hj, hin, hnone⟩)

/-- Sending slices comes to the one that notices. -/
theorem run_sendSlices_outdated (h : Noticed plan.object 0 s₀ s) {wanted : List ℕ}
    (hindex : ∀ i ∈ wanted, i < 2 ^ 32)
    (hnotices : Notices cfg content plan.object plan.info.generation plan.wanted s₀ wanted)
    (url : String) (headers : HeaderMap) :
    ∃ body s' n, (sendSlices cfg plan url headers wanted).run exec choose s = some (body, s') ∧
      Noticed plan.object n s₀ s' ∧ n ≠ 0 ∧ n ≤ max cfg.readahead 1 := by
  induction wanted generalizing s with
  | nil => exact absurd hnotices (by rw [Notices]; exact not_false)
  | cons i rest ih =>
      rw [Notices] at hnotices
      obtain ⟨hi, hstored⟩ := hnotices
      obtain ⟨result, s₁, hslice, hresult⟩ := run_slice_outdated hsolo hworks hranges hdiffers
        hceiling hidle h (hindex i List.mem_cons_self) url headers
      have hrest := fun j hj => hindex j (List.mem_cons_of_mem i hj)
      have hahead : ∀ j ∈ rest.take (cfg.readahead - 1), j < 2 ^ 32 :=
        fun j hj => hrest j (List.mem_of_mem_take hj)
      have hlen : (rest.take (cfg.readahead - 1)).length ≤ cfg.readahead - 1 :=
        List.length_take_le _ _
      rw [sendSlices, Prog.run_bind_of_eq exec hslice]
      rcases hresult with ⟨value, rfl, hvalue, h₁⟩ | ⟨e, rfl, ⟨-, h₁⟩ | ⟨hout, -⟩⟩
      · have hcase := hstored value hvalue
        simp only [piece, Plan.window]
        cases hwindow : value.payloadWindow (payloadWindow i cfg.sliceSize plan.wanted) with
        | ok bytes =>
            -- a slice of the old version is sent, and the loop goes on
            rw [hwindow] at hcase
            obtain ⟨body, s', n, hrun, h', hn, hmax⟩ := ih h₁ hrest hcase
            exact ⟨body.send bytes, s', n, Prog.run_bind_of_eq exec hrun _, h', hn, hmax⟩
        | error short =>
            rw [hwindow] at hcase
            obtain ⟨s', m, hrun, h', -, hm, hmust⟩ := run_runOn_outdated hsolo hworks hranges
              hdiffers hceiling hidle h₁ hahead url headers
            have hpos := hmust hcase
            exact ⟨_, s', m, Prog.run_bind_of_eq exec hrun _, h', by omega, by omega⟩
      · obtain ⟨s', m, hrun, h', hle, hm, -⟩ := run_runOn_outdated hsolo hworks hranges hdiffers
          hceiling hidle h₁ hahead url headers
        exact ⟨.fail e, s', m, Prog.run_bind_of_eq exec hrun _, h', by omega, by omega⟩
      · exact absurd hi hout

end World

end Outdated

/-- An object whose known metadata is of another version, in a state where a request that
asks for `spec` will notice.  The generations after the known one may have slices from an
earlier use; those the request takes have to be exact, at each generation that a window of
slices can bump to. -/
structure Outdated (cfg : Config) (content : List UInt8) (v : Validators) (object : ObjectId)
    (spec : Option RangeSpec) (info : ObjectMeta) (s : Shared) : Prop where
  knows : Knows s object info
  ranges : info.noRanges = false
  differs : info.validators.matchesWith v = false
  nonempty : info.totalLen ≠ 0
  word : info.totalLen < 2 ^ 64
  notices : ∃ wanted, wantedRange spec info.totalLen = .ok wanted ∧
    Notices cfg content object info.generation wanted s (Range.plan wanted cfg.sliceSize).indices
  idle : ∀ i, s.flightOf ⟨object, info.generation, i⟩ = none
  spare : ∀ serial, s.fresh ≤ serial → s.cells ⟨object, serial⟩ = .empty
  next : ∀ n, n ≠ 0 → n ≤ max cfg.readahead 1 →
    ResidentOn (Wanted cfg spec content.length) cfg.sliceSize content object
      (bumpedGeneration n (s.index.get object)) s

section Visits

variable {cfg : Config} {content : List UInt8} {v : Validators} {object : ObjectId}
  {visit : Visit} {info : ObjectMeta} {s : Shared}

/-- **A visit to an object with outdated metadata** breaks off, and leaves a calm state. -/
theorem Outdated.serve (hsliceable : Sliceable cfg content)
    (hfair : visit.Fair cfg content v object)
    (h : Outdated cfg content v object (requestedSpec visit.rawRange) info s) :
    ∃ result s', visit.serve cfg s = some (result, s') ∧ ∃ generation,
      CalmOn (Wanted cfg (requestedSpec visit.rawRange) content.length) cfg.sliceSize content v
        object generation s' := by
  obtain rfl := hfair.object
  obtain ⟨wanted, hwanted, hnotices⟩ := h.notices
  obtain ⟨index, seen, hmetadata, -, hgeneration⟩ := hfair.solo.run_metadata h.knows cfg visit.key
    visit.url visit.forwarded (probeIndexOf cfg (requestedSpec visit.rawRange))
  obtain ⟨status, s₁, hplan, hevicted⟩ := run_plan_of_metadata hmetadata hwanted
  let plan := knownPlan cfg visit.key info (requestedSpec visit.rawRange) wanted status
  have hstart : Noticed plan.object 0 s { s with index := index } :=
    ⟨hgeneration.trans (congrFun Option.map_id _).symm, id, rfl, h.spare,
      fun hzero => absurd rfl hzero⟩
  obtain ⟨body, s', n, hsend, hnoticed, hn, hmax⟩ := @run_sendSlices_outdated visit.choose cfg plan
    content v s s₁ hfair.solo hfair.works h.ranges h.differs hsliceable.ceiling h.idle
    (hstart.evicted hevicted) (Range.plan wanted cfg.sliceSize).indices
    (fun _ => lt_of_mem_indices) hnotices visit.url visit.forwarded
  have hbounds := wantedRange_bounds (fun _ => requestedSpec_ordered) hwanted h.nonempty
  have hindices : indices cfg plan = (Range.plan wanted cfg.sliceSize).indices :=
    if_neg h.nonempty
  rw [← hindices] at hsend
  obtain ⟨hrespond, -⟩ := run_respond_of_send h.nonempty hbounds.1
    (lt_of_le_of_lt hbounds.2 h.word) visit.hostname hsend
  have hserve : visit.serve cfg s = some (.ok { status := plan.status
                                                headers := plan.headers visit.hostname
                                                body := body }, s') := by
    rw [Visit.serve, Cachic.serve, Prog.run_bind_of_eq exec hplan]
    exact Prog.run_bind_of_eq exec hrespond _
  exact ⟨_, s', hserve, _, hnoticed.calm hn (h.next n hn hmax)⟩

/-- An object that was learnt from a 200 of the right length, with nobody filling it. -/
structure Ignored (cfg : Config) (content : List UInt8) (object : ObjectId)
    (spec : Option RangeSpec) (info : ObjectMeta) (s : Shared) : Prop where
  knows : Knows s object info
  ignored : info.noRanges = true
  total : info.totalLen = content.length
  resident : ResidentOn (Wanted cfg spec content.length) cfg.sliceSize content object
    info.generation s
  vacant : s.fillOf object = none

/-- **A visit to such an object** is answered, and the object stays one. -/
theorem Ignored.serve (hsliceable : Sliceable cfg content)
    (hfair : visit.Fair cfg content v object) (hkeeps : KeepsReads visit.choose)
    (h : Ignored cfg content object (requestedSpec visit.rawRange) info s) :
    ∃ response s', visit.serve cfg s = some (.ok response, s') ∧
      RightAnswer content (requestedSpec visit.rawRange) response ∧
      ∃ info, Ignored cfg content object (requestedSpec visit.rawRange) info s' := by
  obtain rfl := hfair.object
  obtain ⟨index, seen, hmetadata, hknows, -⟩ := hfair.solo.run_metadata h.knows cfg visit.key
    visit.url visit.forwarded (probeIndexOf cfg (requestedSpec visit.rawRange))
  have hservable : Servable (Wanted cfg (requestedSpec visit.rawRange) content.length) cfg
      visit.key info content visit.choose visit.url visit.forwarded _ :=
    servable_of_fillable hfair.solo hfair.works hkeeps h.ignored h.total hsliceable.nonempty
      hsliceable.addressable visit.url visit.forwarded { s with index := index }
  obtain ⟨response, s', hrun, hright, hfillable⟩ := hservable.run_serve (fun _ hi => hi) hmetadata
    ⟨h.resident.of_eq rfl rfl, h.vacant, .refl _⟩ visit.hostname
  exact ⟨response, s', hrun, hright, { info with lastSeen := seen },
    hfillable.same.knows hknows, h.ignored, h.total, hfillable.resident, hfillable.vacant⟩

/-! ## Repeating one request -/

/-- A request for `spec` was answered, and exactly right. -/
def AnsweredRight (content : List UInt8) (spec : Option RangeSpec)
    (result : Except OrchestratorError Response) : Prop :=
  ∃ response, result = .ok response ∧ RightAnswer content spec response

/-- Visits that are each answered right, in states that the others leave, all are. -/
theorem serveAll_answered {spec : Option RangeSpec} {visits : List Visit} {I : Shared → Prop}
    (hvisit : ∀ visit ∈ visits, ∀ s, I s → ∃ result s', visit.serve cfg s = some (result, s') ∧
      AnsweredRight content spec result ∧ I s') (hs : I s) :
    ∃ results s', serveAll cfg visits s = some (results, s') ∧ results.length = visits.length ∧
      ∀ result ∈ results, AnsweredRight content spec result := by
  obtain ⟨results, s', hrun, hresults, -⟩ :=
    serveAll_induct (Q := fun _ result => AnsweredRight content spec result) hvisit hs
  refine ⟨results, s', hrun, hresults.length_eq.symm, fun result hresult => ?_⟩
  obtain ⟨i, hi, rfl⟩ := List.getElem_of_mem hresult
  exact hresults.get (hresults.length_eq ▸ hi) hi

/-- A calm state answers every repetition of a request for some byte. -/
theorem CalmOn.serveAll {generation : ℕ} {spec : Option RangeSpec} {visits : List Visit}
    (hself : v.matchesWith v = true) (hsliceable : Sliceable cfg content)
    (hsatisfiable : Satisfiable content spec)
    (hvisits : ∀ visit ∈ visits, visit.Fair cfg content v object ∧
      requestedSpec visit.rawRange = spec)
    (hs : CalmOn (Wanted cfg spec content.length) cfg.sliceSize content v object generation s) :
    ∃ results s', Cachic.serveAll cfg visits s = some (results, s') ∧
      results.length = visits.length ∧ ∀ result ∈ results, AnsweredRight content spec result := by
  refine serveAll_answered (fun visit hvisit s hcalm => ?_) hs
  obtain ⟨hfair, hspec⟩ := hvisits visit hvisit
  obtain ⟨result, s', hrun, hanswer, hcalm'⟩ :=
    hcalm.serve hself hsliceable hfair fun i hi => hspec ▸ hi
  rw [hspec] at hanswer
  exact ⟨result, s', hrun, hanswer hsatisfiable, hcalm'⟩

end Visits

namespace Scenario

end Scenario

end Cachic
