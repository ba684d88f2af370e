import Cachic.Orchestrator.MetadataCell
import Cachic.Orchestrator.Process

/-!
# Metadata is single-flighted

Any number of requests for an object nobody knows yet are planned at once, over a process
that does everything else it can do, except invalidating that object.  The index lookup,
the cell lookup and the probe are steps of their own, so a request may find the object
unknown and come to the cell when the object is known already; it then finds the cell set.
Entries may be removed as well, by pruning or by a purge: the cell still has what they said.

The programs are walked through once with the rules of `tending`: each task goes from place to
place, whoever moves in between.  `metadata_single_flight` reads off what that means for a
run.
-/

namespace Cachic

open ActionLang ThreadTeam Range

section Metadata

variable {object : ObjectId} {α : Type}

/-! ## Tasks that concern something else -/

/-- A step that does not concern the object leaves its task where it stands. -/
theorem keeps_plain {k : Place} (hk : ∀ cell info, k ≠ .written cell info) {a : Act}
    (ha : a.tends object = false) :
    (tending object).may k a ∧
      ∀ r k', (tending object).leads k a r k' → k' = k ∧ Labelled a r := by
  constructor
  · show k.May object a
    rw [Place.May, if_neg (by simp [ha])]
    exact hk
  · intro r k' hleads
    have hleads : k.Leads object a r k' := hleads
    rwa [Place.Leads, if_neg (by simp [ha])] at hleads

theorem wp_plain {p : Task α} {k : Place}
    (hp : p.Within (fun a => a.tends object = false) Labelled)
    (hk : ∀ cell info, k ≠ .written cell info) :
    (tending object).wp p (fun k' _ => k' = k) k :=
  Custody.wp_of_within hp fun _ => keeps_plain hk

/-- One step that does not concern the object. -/
theorem wp_step {β : Type} {a : Act} {f : a.Res → Task β} {Q : Place → β → Prop} {k : Place}
    (ha : a.tends object = false) (hk : ∀ cell info, k ≠ .written cell info)
    (hnext : ∀ r, (tending object).wp (f r) Q k) : (tending object).wp (ask a >>= f) Q k := by
  obtain ⟨hmay, hleads⟩ := keeps_plain hk ha
  refine Custody.wp_perform_bind hmay fun r k' hk' => ?_
  obtain ⟨rfl, -⟩ := hleads r k' hk'
  exact hnext r

/-- One step about the object. -/
theorem wp_tend {β : Type} {a : Act} {f : a.Res → Task β} {Q : Place → β → Prop} {k : Place}
    (ha : a.tends object = true) (hmay : k.MayTend a)
    (hnext : ∀ r k', k.Tended a r k' → (tending object).wp (f r) Q k') :
    (tending object).wp (ask a >>= f) Q k := by
  refine Custody.wp_perform_bind ?_ fun r k' hk' => hnext r k' ?_
  · show k.May object a
    rwa [Place.May, if_pos ha]
  · have hleads : k.Leads object a r k' := hk'
    rwa [Place.Leads, if_pos ha] at hleads

theorem tends_of_fetches {a : Act} (ha : a.fetches = true) : a.tends object = false := by
  unfold Act.fetches at ha
  split at ha <;> first | rfl | cases ha

theorem tends_of_bumps {a : Act} (ha : a.bumps = true) : a.tends object = false := by
  unfold Act.bumps at ha
  split at ha <;> first | rfl | cases ha

theorem tends_of_asks {purpose : Purpose} {a : Act}
    (hpurpose : ∀ index, purpose ≠ .probe object index) (ha : a.asks purpose = true) :
    a.tends object = false := by
  cases a with
  | send p request =>
      obtain rfl : p = purpose := of_decide_eq_true ha
      cases p with
      | probe id index =>
          refine decide_eq_false fun heq => ?_
          exact hpurpose index (by rw [heq])
      | _ => rfl
  | resolve url => rfl
  | _ => cases ha

section Other

variable {id : ObjectId} (hid : id ≠ object)

include hid

theorem touch_plain : (touch id).Within (fun a => a.tends object = false) Labelled := by
  refine .perform_bind (decide_eq_false hid) fun found _ => ?_
  cases found with
  | none => trivial
  | some info =>
      refine .perform_bind rfl fun now _ => ?_
      split
      · trivial
      · exact .perform_bind (decide_eq_false hid) fun _ _ => trivial

theorem probe_plain (cfg : Config) (key : CacheKey) (url : String) (headers : HeaderMap)
    (index : ℕ) :
    (probe cfg key id url headers index).Within (fun a => a.tends object = false) Labelled := by
  refine .bind ((fetchRange_asks _ _ _ _ _ _).within fun _ => tends_of_asks ?_) fun answer => ?_
  · intro i heq
    cases heq
    exact hid rfl
  · cases answer with
    | error e => trivial
    | ok response =>
        dsimp only
        split
        · trivial
        · refine .perform_bind (decide_eq_false hid) fun previous _ =>
            .perform_bind rfl fun now _ => ?_
          split
          · exact .perform_bind (decide_eq_false hid) fun _ _ => trivial
          · exact .perform_bind rfl fun _ _ =>
              .perform_bind (decide_eq_false hid) fun _ _ => trivial

theorem coldMetadata_plain (cfg : Config) (key : CacheKey) (url : String) (headers : HeaderMap)
    (index : ℕ) :
    (coldMetadata cfg key id url headers index).Within (fun a => a.tends object = false)
      Labelled := by
  refine .perform_bind (decide_eq_false hid) fun cell hcell => .perform_bind rfl fun _ _ => ?_
  have hne : cell.object ≠ object := by
    rw [show cell.object = id from hcell]
    exact hid
  refine .perform_bind (decide_eq_false hne) fun entry _ => ?_
  cases entry with
  | ready info => trivial
  | claimed =>
      refine .bind (probe_plain hid cfg key url headers index) fun result => ?_
      cases result with
      | ok info => exact .perform_bind (decide_eq_false hne) fun _ _ => trivial
      | error e => exact .perform_bind (decide_eq_false hne) fun _ _ => trivial

theorem metadata_plain (cfg : Config) (key : CacheKey) (url : String) (headers : HeaderMap)
    (index : ℕ) :
    (metadata cfg key id url headers index).Within (fun a => a.tends object = false)
      Labelled := by
  refine .perform_bind (decide_eq_false hid) fun found _ => ?_
  cases found with
  | none => exact coldMetadata_plain hid cfg key url headers index
  | some info =>
      dsimp only
      split
      · exact .bind (touch_plain hid) fun _ => trivial
      · exact coldMetadata_plain hid cfg key url headers index

end Other

theorem classifyPlan_plain (cfg : Config) (id : ObjectId) (info : ObjectMeta)
    (wanted : ByteRange) (probedHere : Bool) (probeIndex : ℕ) :
    (classifyPlan cfg id info wanted probedHere probeIndex).Within
      (fun a => a.tends object = false) Labelled :=
  (classifyPlan_looks cfg id info wanted probedHere probeIndex).within
    fun a ha => by cases a <;> first | rfl | cases ha

/-- A task that only removes may read the object's entry on the way. -/
theorem wp_removes {p : Task α} (hp : p.All fun a => a.removes = true) {k : Place}
    (hk : ∀ cell info, k ≠ .written cell info) :
    (tending object).wp p (fun _ _ => True) k := by
  induction p generalizing k with
  | ret value => trivial
  | act a next ih =>
      cases htends : a.tends object with
      | false => exact wp_step htends hk fun r => ih r (hp.2 r) hk
      | true =>
          have hremoves := hp.1
          cases a with
          | indexGet id site =>
              refine wp_tend htends ?_ fun found k' htended => ih found (hp.2 found) ?_
              · cases k with
                | written cell info => exact absurd rfl (hk cell info)
                | _ => trivial
              · intro cell info heq
                subst heq
                cases k with
                | written cell info => exact absurd rfl (hk cell info)
                | inside cell => cases htended.2
                | aware record => cases htended.2
                | outside => cases found <;> cases htended; contradiction
                | named cell => cases found <;> cases htended; contradiction
          | _ => first | cases htends | cases hremoves

/-! ## Requests for the object -/

/-- Using what is known about the object. -/
theorem touch_tended (record : ObjectMeta) :
    (tending object).wp (touch object) (fun k' _ => k' = .aware record) (.aware record) := by
  refine wp_tend (decide_eq_true rfl) trivial fun found k' hfound => ?_
  obtain ⟨hrecord, rfl⟩ := hfound
  cases found with
  | none => rfl
  | some info =>
      refine wp_step rfl nofun fun now => ?_
      split
      · rfl
      · exact wp_tend (decide_eq_true rfl) (hrecord info rfl) fun _ k' hk' => hk'

/-- The maintenance job of the same name, which may find the object unknown. -/
theorem touch_outside : (tending object).wp (touch object) (fun _ _ => True) .outside := by
  refine wp_tend (decide_eq_true rfl) trivial fun found k' hfound => ?_
  cases found with
  | none => trivial
  | some info =>
      obtain ⟨-, rfl⟩ := hfound
      refine wp_step rfl nofun fun now => ?_
      split
      · trivial
      · exact wp_tend (decide_eq_true rfl) rfl fun _ _ _ => trivial

/-- The request of a probe, by the task that has the permit. -/
theorem fetchRange_tended (cell : CellId) (client : ClientConfig) (index : ℕ) (url : String)
    (headers : HeaderMap) (start stop : ℕ) :
    (tending object).wp (fetchRange client (.probe object index) url headers start stop)
      (fun k' _ => k' = .inside cell) (.inside cell) := by
  refine Custody.wp_of_all (fetchRange_asks _ _ _ _ _ _) fun a ha => ?_
  cases a with
  | resolve url =>
      obtain ⟨hmay, hleads⟩ := @keeps_plain object (.inside cell) nofun (.resolve url) rfl
      exact ⟨hmay, fun r k' hk' => (hleads r k' hk').1⟩
  | send purpose request =>
      obtain rfl : purpose = .probe object index := of_decide_eq_true ha
      have htends : (Act.send (.probe object index) request).tends object = true :=
        decide_eq_true rfl
      constructor
      · show Place.May object (.inside cell) _
        rw [Place.May, if_pos htends]
        trivial
      · intro r k' hk'
        have hleads : Place.Leads object (.inside cell) _ r k' := hk'
        rwa [Place.Leads, if_pos htends] at hleads
  | _ => cases ha

/-- A probe succeeds in its last step, and fails with the permit still in hand. -/
theorem probe_tended (cell : CellId) (cfg : Config) (key : CacheKey) (url : String)
    (headers : HeaderMap) (index : ℕ) :
    (tending object).wp (probe cfg key object url headers index)
      (fun k' result => (∀ info, result = .ok info → k' = .written cell info) ∧
        ∀ e, result = .error e → k' = .inside cell) (.inside cell) := by
  refine Custody.wp_bind_of (fetchRange_tended cell _ _ _ _ _ _) ?_
  rintro k answer rfl
  cases answer with
  | error e => exact ⟨nofun, fun _ _ => rfl⟩
  | ok response =>
      dsimp only
      split
      · exact ⟨nofun, fun _ _ => rfl⟩
      · refine wp_tend (decide_eq_true rfl) trivial fun previous k hprevious => ?_
        obtain ⟨-, rfl⟩ := hprevious
        refine wp_step rfl nofun fun now => ?_
        split
        · refine wp_tend (decide_eq_true rfl) rfl fun _ k hk => ⟨fun info hinfo => ?_, nofun⟩
          cases hinfo
          exact hk
        · refine wp_step rfl nofun fun _ =>
            wp_tend (decide_eq_true rfl) rfl fun _ k hk => ⟨fun info hinfo => ?_, nofun⟩
          cases hinfo
          exact hk

/-- Where a task stands when it has asked for metadata: nothing is left to be done about
the cell, and what it was given for the object is what the one probe has learnt. -/
def MetadataGiven (object id : ObjectId) (k : Place)
    (result : Except OrchestratorError (ObjectMeta × Bool)) : Prop :=
  (∀ cell info, k ≠ .written cell info) ∧
    ∀ info probedHere, result = .ok (info, probedHere) → id = object → k = .aware info.record

theorem metadataGiven_aware {id : ObjectId} (info : ObjectMeta) (probedHere : Bool) :
    MetadataGiven object id (.aware info.record) (.ok (info, probedHere)) := by
  refine ⟨nofun, fun info' probedHere' heq _ => ?_⟩
  cases heq
  rfl

/-- Entering the cell. -/
theorem coldMetadata_tended (cfg : Config) (key : CacheKey) (url : String) (headers : HeaderMap)
    (index : ℕ) :
    (tending object).wp (coldMetadata cfg key object url headers index)
      (MetadataGiven object object) .outside := by
  refine wp_tend (decide_eq_true rfl) trivial fun cell k hcell => ?_
  obtain ⟨hobject, rfl⟩ := hcell
  have hcell : cell.object = object := hobject
  refine wp_step rfl nofun fun initialized => ?_
  refine wp_tend (decide_eq_true hcell) rfl fun entry k hentry => ?_
  cases entry with
  | ready info =>
      cases hentry
      exact metadataGiven_aware info _
  | claimed =>
      cases hentry
      refine Custody.wp_bind_of (probe_tended cell cfg key url headers index) ?_
      rintro k result ⟨hok, herror⟩
      cases result with
      | ok info =>
          obtain rfl := hok info rfl
          refine wp_tend (decide_eq_true hcell) ⟨rfl, rfl⟩ fun _ k hk => ?_
          cases hk
          exact metadataGiven_aware info _
      | error e =>
          obtain rfl := herror e rfl
          refine wp_tend (decide_eq_true hcell) rfl fun _ k hk => ?_
          cases hk
          exact ⟨nofun, nofun⟩

theorem metadata_tended (cfg : Config) (key : CacheKey) (id : ObjectId) (url : String)
    (headers : HeaderMap) (index : ℕ) :
    (tending object).wp (metadata cfg key id url headers index) (MetadataGiven object id)
      .outside := by
  by_cases hid : id = object
  · subst hid
    refine wp_tend (decide_eq_true rfl) trivial fun found k hfound => ?_
    cases found with
    | none =>
        cases hfound
        exact coldMetadata_tended cfg key url headers index
    | some info =>
        obtain ⟨hstale, rfl⟩ := hfound
        dsimp only
        rw [if_pos (by simp [hstale])]
        refine Custody.wp_bind_of (touch_tended info.record) ?_
        rintro k wrote rfl
        exact metadataGiven_aware info false
  · refine Custody.wp_conseq (wp_plain (metadata_plain hid cfg key url headers index) nofun) ?_
    rintro k result rfl
    exact ⟨nofun, fun _ _ _ heq => absurd heq hid⟩

/-- What a successful plan for the object is made from. -/
def PlanGiven (object : ObjectId) (k : Place) (result : Except OrchestratorError Plan) : Prop :=
  ∀ plan, result = .ok plan → plan.object = object →
    k = .aware plan.info.record ∧ plan.totalLen = plan.info.totalLen

theorem plan_tended (cfg : Config) (key : CacheKey) (url : String) (headers : HeaderMap)
    (rawRange : Option String) :
    (tending object).wp (plan cfg key url headers rawRange) (PlanGiven object) .outside := by
  refine Custody.wp_bind_of (metadata_tended cfg key (cfg.objectId key) url headers _) ?_
  rintro k found ⟨hopen, hgiven⟩
  cases found with
  | error e => exact nofun
  | ok given =>
      obtain ⟨info, probedHere⟩ := given
      dsimp only
      split
      · exact nofun
      · refine Custody.wp_bind_of (wp_plain (classifyPlan_plain cfg _ info _ probedHere _) hopen) ?_
        rintro k status rfl plan hplan hobject
        cases hplan
        exact ⟨hgiven info probedHere rfl hobject, rfl⟩

/-! ## Everything the process does -/

/-- The jobs a process does.  A probe is part of a plan and never a job of its own for the
object. -/
def Job.Regular (cfg : Config) (object : ObjectId) : Job → Prop
  | .probe key _ _ _ => cfg.objectId key ≠ object
  | _ => True

/-- What a finished job says about the object. -/
def JobGiven (object : ObjectId) (k : Place) : Outcome → Prop
  | .planned result => PlanGiven object k result
  | _ => True

theorem job_tended (cfg : Config) {job : Job} (hjob : job.Regular cfg object) :
    (tending object).wp (job.task cfg) (JobGiven object) .outside := by
  cases job with
  | plan key url headers rawRange =>
      exact Custody.wp_bind_of (plan_tended cfg key url headers rawRange) fun _ _ h => h
  | slice chosen url headers index =>
      have hall := (slice_fetches cfg chosen url headers index).within (L := Labelled)
        (P := fun a => a.tends object = false) fun _ ha =>
          ha.elim tends_of_fetches tends_of_bumps
      exact Custody.wp_bind_of (wp_plain hall nofun) fun _ _ _ => trivial
  | probe key url headers index =>
      exact Custody.wp_bind_of (wp_plain (probe_plain hjob cfg key url headers index) nofun)
        fun _ _ _ => trivial
  | touch id =>
      by_cases hid : id = object
      · subst hid
        exact Custody.wp_bind_of touch_outside fun _ _ _ => trivial
      · exact Custody.wp_bind_of (wp_plain (touch_plain hid) nofun) fun _ _ _ => trivial
  | invalidate id =>
      have hall := (invalidate_bumps id).within (L := Labelled)
        (P := fun a => a.tends object = false) fun _ => tends_of_bumps
      exact Custody.wp_bind_of (wp_plain hall nofun) fun _ _ _ => trivial
  | prune maxAge =>
      exact Custody.wp_bind_of (wp_removes (prune_removes maxAge) nofun) fun _ _ _ => trivial
  | purge start =>
      exact Custody.wp_bind_of (wp_removes (purge_removes cfg start) nofun) fun _ _ _ => trivial

/-! ## Runs -/

abbrev TenantTeam := Team TenantState (Option (Task Outcome))

/-- No task, no permit taken, nothing done yet. -/
def TenantTeam.start (s : Shared) : TenantTeam where
  shared := { shared := { shared := s, permit := fun _ => none }, log := [] }
  threads := []

/-- Nothing is known about the object, and nobody is finding out. -/
structure Unseen (object : ObjectId) (s : Shared) : Prop where
  entry : s.index.get object = none
  cells : ∀ cell, cell.object = object → s.cells cell = .empty
  named : ∀ id cell, s.cellOf id = some cell → cell.object = id

/-- A process that has just started over an index without the object. -/
theorem unseen_boot {index : ObjectIndex} (store : SliceKey → Option SliceValue) (fresh : ℕ)
    (h : index.get object = none) : Unseen object (.boot index store fresh) :=
  ⟨h, fun _ _ => rfl, nofun⟩

theorem follows_start {s : Shared} (hs : Unseen object s) :
    (tending object).Follows (JobGiven object) (TenantTeam.start s) := by
  refine ⟨?_, nofun, fun {tid} _ => ?_⟩
  · show Kept object (TenantTeam.start s).shared
    refine ⟨hs.named, fun cell hcell _ => hs.cells cell hcell, fun cell hcell => ?_,
      fun cell info hcell hready => ?_, fun _ => rfl, hs.entry, trivial⟩
    · simp [TenantTeam.start, hs.cells cell hcell]
    · exact absurd ((hs.cells cell hcell).symm.trans hready) (by simp)
  · show Stands object (TenantTeam.start s).shared tid .outside
    exact ⟨fun _ _ => ⟨nofun, nofun⟩, nofun, trivial⟩

/-- The task has sent a probe of the object, or sends it again, and waits for the answer. -/
def inFlight (object : ObjectId) : Option (Task Outcome) → Bool
  | some (.act a _) => probes object a
  | _ => false

theorem exists_of_inFlight {task : Option (Task Outcome)} (h : inFlight object task = true) :
    ∃ a next, task = some (.act a next) ∧ probes object a = true := by
  unfold inFlight at h
  split at h
  · next a next => exact ⟨a, next, rfl, h⟩
  · cases h

/-- A task that probes the object has the permit. -/
theorem held_of_probes {k : Place} {a : Act} (hprobes : probes object a = true)
    (hmay : k.May object a) : ∃ cell, k.held = some cell := by
  have htends : a.tends object = true := by
    by_contra hnot
    exact absurd ((probes_eq_false (by simpa using hnot)).symm.trans hprobes) (by simp)
  rw [Place.May, if_pos htends] at hmay
  cases a with
  | send purpose request =>
      cases k with
      | inside cell => exact ⟨cell, rfl⟩
      | _ => exact hmay.elim
  | _ => cases hprobes

/-- The plan of a request that has succeeded. -/
def planOf : Option (Task Outcome) → Option Plan
  | some (.ret (.planned (.ok plan))) => some plan
  | _ => none

def TenantTeam.plans (team : TenantTeam) : List Plan := team.threads.filterMap planOf

theorem TenantTeam.mem_plans {team : TenantTeam} {plan : Plan} (h : plan ∈ team.plans) :
    ∃ tid : ℕ, team.threads[tid]? = some (some (.ret (.planned (.ok plan)))) := by
  obtain ⟨task, hmem, htask⟩ := List.mem_filterMap.mp h
  obtain ⟨tid, htid⟩ := List.mem_iff_getElem?.mp hmem
  refine ⟨tid, ?_⟩
  unfold planOf at htask
  split at htask
  · cases htask
    exact htid
  · cases htask

/-- What single-flighted metadata is, at any point of a run. -/
structure SingleFlight (object : ObjectId) (team : TenantTeam) : Prop where
  /-- At most one probe is in flight. -/
  one : ∀ {tid tid' : ℕ} {task task'}, team.threads[tid]? = some task →
    team.threads[tid']? = some task' → inFlight object task = true →
    inFlight object task' = true → tid = tid'
  /-- At most one has succeeded. -/
  success : (successes object team.shared.log).length ≤ 1
  /-- Every plan that has succeeded was made from what that one has learnt. -/
  plans : ∀ plan ∈ team.plans, plan.object = object →
    ∃ info, successes object team.shared.log = [info] ∧ plan.info.record = info.record ∧
      plan.totalLen = info.totalLen
  /-- None was sent after it. -/
  quiet : Quiet object team.shared.log

theorem singleFlight_of_follows {team : TenantTeam}
    (h : (tending object).Follows (JobGiven object) team) : SingleFlight object team := by
  have hkept : Kept object team.shared := h.inv
  constructor
  case one =>
    intro tid tid' task task' htask htask' hflight hflight'
    obtain ⟨a, next, rfl, hprobes⟩ := exists_of_inFlight hflight
    obtain ⟨a', next', rfl, hprobes'⟩ := exists_of_inFlight hflight'
    obtain ⟨k, hk, hmay, -⟩ := h.task htask
    obtain ⟨k', hk', hmay', -⟩ := h.task htask'
    obtain ⟨cell, hheld⟩ := held_of_probes hprobes hmay
    obtain ⟨cell', hheld'⟩ := held_of_probes hprobes' hmay'
    exact Stands.unique hkept hk hk' hheld hheld'
  case success =>
    have hentry := hkept.entry
    match hlist : successes object team.shared.log, hentry with
    | [], _ => exact Nat.zero_le 1
    | [_], _ => exact le_rfl
    | _ :: _ :: _, hfalse => exact hfalse.elim
  case plans =>
    intro plan hmem hobject
    obtain ⟨tid, htid⟩ := TenantTeam.mem_plans hmem
    obtain ⟨k, hk, hgiven⟩ := h.task htid
    obtain ⟨rfl, hlen⟩ := hgiven plan rfl hobject
    obtain ⟨info, hinfo, hrecord⟩ := Stands.told hk
    refine ⟨info, hinfo, hrecord.symm, ?_⟩
    rw [hlen]
    exact (congrArg ObjectMeta.totalLen hrecord).symm
  case quiet => exact hkept.quiet

/-- **Metadata is single-flighted.**  From a state in which the object is unknown, in every
run of any number of jobs, in any order, with every pattern of failing and of dropped
requests, and with no step that invalidates the object: at most one probe of it is in
flight, at most one succeeds, every plan that succeeds was made from what that probe has
learnt, and no probe is sent after it. -/
theorem metadata_single_flight (cfg : Config) (object : ObjectId) (s : Shared)
    (steps : List (Step (Option (Task Outcome)) (Option Choice))) (team : TenantTeam)
    (hs : Unseen object s)
    (hjobs : ∀ task, .spawn task ∈ steps →
      ∃ job : Job, job.Regular cfg object ∧ task = some (job.task cfg))
    (hrun : (tenants.machine Outcome).run (TenantTeam.start s) steps = some team)
    (hcalm : ∀ e ∈ team.shared.log, e.1.invalidates object = false) : SingleFlight object team := by
  refine singleFlight_of_follows ((follows_start hs).run (fun p hp => ?_) hrun hcalm)
  obtain ⟨job, hregular, hjob⟩ := hjobs _ hp
  cases hjob
  exact job_tended cfg hregular

end Metadata

namespace Scenario

/-- Task `tid` performs its next steps, one for each choice. -/
def moves (tid : ℕ) (choices : List Choice) : List (Step (Option (Task Outcome)) (Option Choice)) :=
  choices.map fun choice => .go tid (some choice)

/-- Three requests find the object unknown.  The first comes to the cell and is dropped
while it waits for the origin; the second probes in its place, and the third finds the cell
set. -/
def threeRequests : List (Step (Option (Task Outcome)) (Option Choice)) :=
  List.replicate 3 (.spawn (some ((Job.plan key url [] (some "bytes=0-0")).task config))) ++
    moves 0 [.go] ++ moves 1 [.go] ++ moves 2 [.go] ++
    moves 0 [.go, .go, .go, .resolved (.ok ())] ++ [.go 0 none] ++
    moves 1 ([.go, .go, .go, .resolved (.ok ()), reply "\"v1\"" "bytes 0-0/1" [7]] ++
      committing 1) ++
    moves 2 [.go, .go, .go, .go]

theorem metadata_single_flight_three :
    ∃ team : TenantTeam,
      (tenants.machine Outcome).run (TenantTeam.start .init) threeRequests = some team ∧
      successes object team.shared.log = [info "\"v1\"" 1 0] ∧
      team.plans.map Plan.info = [info "\"v1\"" 1 0, info "\"v1\"" 1 0] ∧
      SingleFlight object team := by
  obtain ⟨team, hrun, hsuccesses, hplans, hcalm⟩ := Machine.exists_run (tenants.machine Outcome)
    (TenantTeam.start .init) threeRequests
    (fun team : TenantTeam => successes object team.shared.log = [info "\"v1\"" 1 0] ∧
      team.plans.map Plan.info = [info "\"v1\"" 1 0, info "\"v1\"" 1 0] ∧
      ∀ e ∈ team.shared.log, e.1.invalidates object = false) (by decide +kernel)
  refine ⟨team, hrun, hsuccesses, hplans, metadata_single_flight config object .init threeRequests
    team (unseen_boot _ _ rfl) (fun task htask => ?_) hrun hcalm⟩
  have hjob : task = some ((Job.plan key url [] (some "bytes=0-0")).task config) := by
    simpa [threeRequests, moves, List.mem_replicate] using htask
  exact ⟨.plan key url [] (some "bytes=0-0"), trivial, hjob⟩

end Scenario

end Cachic
