import Cachic.Lib.Custody
import Cachic.Orchestrator.Programs

/-!
# Who is in an object's metadata cell

A metadata cell has one permit.  The task that finds the cell empty takes it, probes the
origin, and sets the cell or leaves it empty again; the others wait for the permit or find
the cell set.  A request that its client gives up on is dropped where it waits, and a
dropped task gives its permit back.

`Tenancy` is the shared state with the holder of every permit.  `tending` follows one object:
what a task knows about the object's cell, what it may do there, and what everybody can
rely on.  What ties the two together is that a probe's metadata enters the index while its
task has the permit, and nothing waits between that and the cell being set.
-/

namespace Cachic

open ActionLang

/-! ## Permits -/

/-- What the tasks share, and who has the permit of each metadata cell. -/
structure Tenancy where
  shared : Shared
  permit : CellId → Option ℕ

/-- Who has the permits after a step of task `tid`. -/
def permitAfter (tid : ℕ) (permit : CellId → Option ℕ) : (a : Act) → a.Res → CellId → Option ℕ
  | .cellEnter cell, .claimed => Function.update permit cell (some tid)
  | .cellInit cell _, _ => Function.update permit cell none
  | .cellAbandon cell, _ => Function.update permit cell none
  | _, _ => permit

/-- The steps a task waits in.  A request that is given up is dropped in one of them. -/
def Act.awaits : Act → Bool
  | .cellEnter _ => true
  | .resolve _ => true
  | .send _ _ => true
  | .storeGet _ => true
  | .storeEnter _ => true
  | .storeAwait _ => true
  | .fillWait _ _ => true
  | _ => false

namespace Tenancy

def exec (tid : ℕ) (a : Act) (choice : Choice) (t : Tenancy) : Option (a.Res × Tenancy) :=
  (Cachic.exec a choice t.shared).map fun r =>
    (r.1, { shared := r.2, permit := permitAfter tid t.permit a r.1 })

/-- The permits of task `tid` are given back, and the cells it was to set are empty. -/
def vacate (tid : ℕ) (t : Tenancy) : Tenancy where
  shared := { t.shared with
    cells := fun cell => if t.permit cell = some tid then .empty else t.shared.cells cell }
  permit := fun cell => if t.permit cell = some tid then none else t.permit cell

def drop (tid : ℕ) (a : Act) (t : Tenancy) : Option Tenancy :=
  if a.awaits then some (t.vacate tid) else none

theorem exec_eq_some_iff {tid : ℕ} {a : Act} {choice : Choice} {t t' : Tenancy} {r : a.Res} :
    t.exec tid a choice = some (r, t') ↔
      ∃ s', Cachic.exec a choice t.shared = some (r, s') ∧
        t' = { shared := s', permit := permitAfter tid t.permit a r } := by
  simp only [exec, Option.map_eq_some_iff, Prod.mk.injEq]
  constructor
  · rintro ⟨⟨r', s'⟩, hexec, rfl, rfl⟩
    exact ⟨s', hexec, rfl⟩
  · rintro ⟨s', hexec, rfl⟩
    exact ⟨⟨r, s'⟩, hexec, rfl, rfl⟩

end Tenancy

/-- The tasks of the process, each of which can be dropped where it waits. -/
def tenants : World Act Act.Res Tenancy Choice where
  exec := fun tid a choice t => t.exec tid a choice
  drop := fun tid a t => t.drop tid a

abbrev TenantState := Logged Act Act.Res Tenancy

/-! ## What concerns one object's metadata -/

/-- An entry without the time of its last use, which is all that a use changes. -/
def ObjectMeta.record (info : ObjectMeta) : ObjectMeta := { info with lastSeen := 0 }

section Object

variable (object : ObjectId)

/-- The steps of learning about the object and of using what is known. -/
def Act.tends : Act → Bool
  | .indexGet id .metadata => id = object
  | .indexGet id .touch => id = object
  | .indexGet id (.probe _) => id = object
  | .indexPut id _ (.touch _) => id = object
  | .indexPut id _ (.probe _) => id = object
  | .cell id => id = object
  | .cellEnter c => c.object = object
  | .cellInit c _ => c.object = object
  | .cellAbandon c => c.object = object
  | .send (.probe id _) _ => id = object
  | _ => false

/-- The steps of invalidating the object, and of writing an entry for it from outside. -/
def Act.invalidates : Act → Bool
  | .indexPut id _ (.invalidate _) => id = object
  | .indexPut id _ .direct => id = object
  | .cellDrop id => id = object
  | _ => false

/-- The metadata of a probe of the object that succeeds in this step. -/
def successOf : Event Act Act.Res → Option ObjectMeta
  | ⟨.indexPut id info (.probe _), _⟩ => if id = object then some info else none
  | _ => none

/-- The metadata of the probes that have succeeded. -/
def successes (log : List (Event Act Act.Res)) : List ObjectMeta := log.filterMap (successOf object)

/-- A probe of the object is sent. -/
def probes : Act → Bool
  | .send (.probe id _) _ => id = object
  | _ => false

/-- No probe was sent after one had succeeded. -/
def Quiet : List (Event Act Act.Res) → Prop
  | [] => True
  | e :: earlier => (probes object e.1 = true → successes object earlier = []) ∧ Quiet earlier

variable {object}

theorem successes_cons_of_none {e : Event Act Act.Res} (log : List (Event Act Act.Res))
    (h : successOf object e = none) : successes object (e :: log) = successes object log :=
  List.filterMap_cons_none h

theorem successes_cons_of_some {e : Event Act Act.Res} {info : ObjectMeta}
    (log : List (Event Act Act.Res)) (h : successOf object e = some info) :
    successes object (e :: log) = info :: successes object log :=
  List.filterMap_cons_some h

/-- What does not concern the object is no success of a probe of it. -/
theorem successOf_eq_none {a : Act} (ha : a.tends object = false) (r : a.Res) :
    successOf object ⟨a, r⟩ = none := by
  unfold successOf
  split
  · next heq =>
      cases heq
      simpa [Act.tends] using ha
  · rfl

theorem probes_eq_false {a : Act} (ha : a.tends object = false) : probes object a = false := by
  unfold probes
  split
  · simpa [Act.tends] using ha
  · rfl

/-! ## Places -/

/-- Where a task stands with the object's metadata. -/
inductive Place
  | outside
  /-- has the object's cell -/
  | named (cell : CellId)
  /-- has the permit, and nothing is known yet -/
  | inside (cell : CellId)
  /-- has the permit, and has written to the index what its probe learnt -/
  | written (cell : CellId) (info : ObjectMeta)
  /-- knows what the probe has learnt -/
  | aware (record : ObjectMeta)

namespace Place

/-- The cell whose permit the task has. -/
def held : Place → Option CellId
  | .inside cell => some cell
  | .written cell _ => some cell
  | _ => none

/-- The cell the task knows. -/
def cell : Place → Option CellId
  | .named cell => some cell
  | k => k.held

/-- How the place is related to the probes that have succeeded. -/
def Told (succeeded : List ObjectMeta) : Place → Prop
  | .inside _ => succeeded = []
  | .written _ info => succeeded = [info]
  | .aware record => ∃ info, succeeded = [info] ∧ info.record = record
  | _ => True

/-- What a task may do about the object. -/
def MayTend : Place → Act → Prop
  | .written cell info, .cellInit cell' info' => cell' = cell ∧ info' = info
  | .written _ _, _ => False
  | _, .indexGet _ _ => True
  | .aware record, .indexPut _ info (.touch _) => info.record = record
  | .inside _, .indexPut _ info (.probe _) => info.stale = false
  | .outside, .cell _ => True
  | .named cell, .cellEnter cell' => cell' = cell
  | .inside cell, .cellAbandon cell' => cell' = cell
  | .inside _, .send _ _ => True
  | _, _ => False

/-- Where it stands then. -/
def Tended : Place → (a : Act) → a.Res → Place → Prop
  | .inside cell, .indexGet _ _, found, k' => found = none ∧ k' = .inside cell
  | .aware record, .indexGet _ _, found, k' =>
      (∀ info, found = some info → info.record = record) ∧ k' = .aware record
  | k, .indexGet _ _, none, k' => k' = k
  | _, .indexGet _ _, some info, k' => info.stale = false ∧ k' = .aware info.record
  | .inside cell, .indexPut _ info _, _, k' => k' = .written cell info
  | _, .cell id, c, k' => c.object = id ∧ k' = .named c
  | _, .cellEnter _, .ready info, k' => k' = .aware info.record
  | _, .cellEnter cell, .claimed, k' => k' = .inside cell
  | _, .cellInit _ info, _, k' => k' = .aware info.record
  | _, .cellAbandon _, _, k' => k' = .outside
  | k, _, _, k' => k' = k

end Place

/-! ## The rules -/

/-- A cell is made for the object it was asked for. -/
def Labelled : (a : Act) → a.Res → Prop
  | .cell id, c => c.object = id
  | _, _ => True

variable (object) in
/-- What a task may do.  With the metadata written, it does nothing but set the cell. -/
def Place.May (k : Place) (a : Act) : Prop :=
  if a.tends object then k.MayTend a else ∀ cell info, k ≠ .written cell info

variable (object) in
def Place.Leads (k : Place) (a : Act) (r : a.Res) (k' : Place) : Prop :=
  if a.tends object then k.Tended a r k' else k' = k ∧ Labelled a r

variable (object) in
/-- Task `tid` stands at `k`. -/
structure Stands (w : TenantState) (tid : ℕ) (k : Place) : Prop where
  permit : ∀ cell, cell.object = object → (w.shared.permit cell = some tid ↔ k.held = some cell)
  cell : ∀ cell, k.cell = some cell → w.shared.shared.cellOf object = some cell
  told : k.Told (successes object w.log)

variable (object) in
/-- The index agrees with what the probes have learnt.  An entry may have been removed. -/
def EntryOf (index : ObjectIndex) : List ObjectMeta → Prop
  | [] => index.get object = none
  | [info] => info.stale = false ∧
      ∀ entry, index.get object = some entry → entry.record = info.record
  | _ => False

/-- Every cell is that of the object it is found under. -/
def CellsNamed (t : Tenancy) : Prop :=
  ∀ id cell, t.shared.cellOf id = some cell → cell.object = id

variable (object) in
/-- What everybody can rely on. -/
structure Kept (w : TenantState) : Prop where
  named : CellsNamed w.shared
  strange : ∀ cell, cell.object = object → w.shared.shared.cellOf object ≠ some cell →
    w.shared.shared.cells cell = .empty
  busy : ∀ cell, cell.object = object →
    (w.shared.shared.cells cell = .busy ↔ ∃ tid, w.shared.permit cell = some tid)
  ready : ∀ cell info, cell.object = object → w.shared.shared.cells cell = .ready info →
    successes object w.log = [info]
  vacant : (∀ cell, w.shared.shared.cellOf object = some cell →
    w.shared.shared.cells cell = .empty) → successes object w.log = []
  entry : EntryOf object w.shared.shared.index (successes object w.log)
  quiet : Quiet object w.log

/-! ## What other steps leave alone -/

variable (object) in
/-- Nothing about the object's metadata is different, except that the entry may be gone. -/
structure Untouched (t t' : Tenancy) : Prop where
  entry : ∀ entry, t'.shared.index.get object = some entry →
    t.shared.index.get object = some entry
  cellOf : t'.shared.cellOf object = t.shared.cellOf object
  cells : ∀ cell, cell.object = object → t'.shared.cells cell = t.shared.cells cell
  permit : ∀ cell, cell.object = object → t'.permit cell = t.permit cell

/-- An entry is what a probe has written, up to the time of its last use. -/
theorem EntryOf.of_get {index : ObjectIndex} {succeeded : List ObjectMeta} {entry : ObjectMeta}
    (h : EntryOf object index succeeded) (hget : index.get object = some entry) :
    entry.stale = false ∧ ∃ info, succeeded = [info] ∧ info.record = entry.record := by
  match succeeded, h with
  | [], h => exact absurd (h.symm.trans hget) (by simp)
  | [info], ⟨hstale, hentry⟩ =>
      have hrecord := hentry entry hget
      have hstale' := congrArg ObjectMeta.stale hrecord
      exact ⟨hstale'.trans hstale, info, rfl, hrecord.symm⟩
  | _ :: _ :: _, h => exact h.elim

theorem EntryOf.congr {index index' : ObjectIndex} {succeeded : List ObjectMeta}
    (h : EntryOf object index succeeded)
    (hget : ∀ entry, index'.get object = some entry → index.get object = some entry) :
    EntryOf object index' succeeded := by
  match succeeded, h with
  | [], h =>
      show index'.get object = none
      rw [Option.eq_none_iff_forall_ne_some]
      exact fun entry hentry => absurd (h.symm.trans (hget entry hentry)) (by simp)
  | [_], ⟨hstale, hrecord⟩ => exact ⟨hstale, fun entry hentry => hrecord entry (hget entry hentry)⟩
  | _ :: _ :: _, h => exact h.elim

theorem Kept.congr {w w' : TenantState} (h : Kept object w)
    (hsame : Untouched object w.shared w'.shared) (hnamed : CellsNamed w'.shared)
    (hlog : successes object w'.log = successes object w.log) (hquiet : Quiet object w'.log) :
    Kept object w' where
  named := hnamed
  strange := fun cell hcell hne => by
    rw [hsame.cells cell hcell]
    exact h.strange cell hcell (hsame.cellOf ▸ hne)
  busy := fun cell hcell => by
    rw [hsame.cells cell hcell, hsame.permit cell hcell]
    exact h.busy cell hcell
  ready := fun cell info hcell hready => by
    rw [hlog]
    exact h.ready cell info hcell (hsame.cells cell hcell ▸ hready)
  vacant := fun hempty => by
    rw [hlog]
    refine h.vacant fun cell hcell => ?_
    rw [← hsame.cells cell (h.named _ _ hcell)]
    exact hempty cell (hsame.cellOf.trans hcell)
  entry := by
    rw [hlog]
    exact h.entry.congr hsame.entry
  quiet := hquiet

/-- The object's cell and its permit change together. -/
theorem Kept.setCell {w : TenantState} (h : Kept object w) {cell : CellId}
    (hcell : w.shared.shared.cellOf object = some cell) (state : Cell) (holder : Option ℕ)
    (hbusy : state = .busy ↔ ∃ tid, holder = some tid)
    (hready : ∀ info, state = .ready info → successes object w.log = [info])
    (hvacant : state = .empty → successes object w.log = []) {log : List (Event Act Act.Res)}
    (hlog : successes object log = successes object w.log) (hquiet : Quiet object log) :
    Kept object
      { shared :=
          { shared := { w.shared.shared with
              cells := Function.update w.shared.shared.cells cell state }
            permit := Function.update w.shared.permit cell holder }
        log := log } where
  named := h.named
  strange := fun other hother hne => by
    have hother' : other ≠ cell := fun heq => hne (heq ▸ hcell)
    exact (Function.update_of_ne hother' _ _).trans (h.strange other hother hne)
  busy := fun other hother => by
    simp only [Function.update_apply]
    split
    · exact hbusy
    · exact h.busy other hother
  ready := fun other info hother hset => by
    rw [hlog]
    simp only [Function.update_apply] at hset
    split at hset
    · exact hready info hset
    · exact h.ready other info hother hset
  vacant := fun hempty => by
    rw [hlog]
    exact hvacant ((Function.update_self cell _ _).symm.trans (hempty cell hcell))
  entry := by
    rw [hlog]
    exact h.entry
  quiet := hquiet

/-- A step of another task, as a task at `k` sees it: its permits and its cell are as they
were, and if a probe succeeds, this task has no permit. -/
theorem Stands.congr {w w' : TenantState} {tid : ℕ} {k : Place} (h : Stands object w tid k)
    (hpermit : ∀ cell, cell.object = object →
      (w'.shared.permit cell = some tid ↔ w.shared.permit cell = some tid))
    (hcell : ∀ cell, w.shared.shared.cellOf object = some cell →
      w'.shared.shared.cellOf object = some cell)
    (hsucceeded : successes object w'.log = successes object w.log ∨
      successes object w.log = [] ∧ k.held = none) : Stands object w' tid k where
  permit := fun cell hobject => (hpermit cell hobject).trans (h.permit cell hobject)
  cell := fun cell hk => hcell cell (h.cell cell hk)
  told := by
    have htold := h.told
    rcases hsucceeded with heq | ⟨hnone, hheld⟩
    · rwa [heq]
    · cases k with
      | outside => trivial
      | named cell => trivial
      | inside cell => cases hheld
      | written cell info => cases hheld
      | aware record =>
          obtain ⟨info, hinfo, -⟩ := htold
          rw [hnone] at hinfo
          cases hinfo

section Plain

variable {tid : ℕ} {a : Act} {choice : Choice} {t t' : Tenancy} {r : a.Res}

/-- A step that writes neither the index nor the cells. -/
theorem untouched_of_frame (object : ObjectId) (hexec : t.exec tid a choice = some (r, t'))
    (hindex : .index ∉ a.writes) (hcells : .cells ∉ a.writes) :
    Untouched object t t' ∧ t'.shared.cellOf = t.shared.cellOf := by
  obtain ⟨s', hs', rfl⟩ := Tenancy.exec_eq_some_iff.mp hexec
  have hget : s'.index = t.shared.index := exec_frame hs' hindex
  obtain ⟨hcellOf, hcell⟩ : s'.cellOf = t.shared.cellOf ∧ s'.cells = t.shared.cells :=
    exec_frame hs' hcells
  have hpermit : permitAfter tid t.permit a r = t.permit := by
    cases a with
    | cellEnter c => simp [Act.writes] at hcells
    | cellInit c info => simp [Act.writes] at hcells
    | cellAbandon c => simp [Act.writes] at hcells
    | _ => rfl
  refine ⟨⟨?_, ?_, fun cell _ => ?_, fun cell _ => ?_⟩, hcellOf⟩
  · rw [show s'.index = t.shared.index from hget]
    exact fun _ h => h
  · simp only [hcellOf]
  · simp only [hcell]
  · simp only [hpermit]

/-- A cell of another object is changed. -/
theorem untouched_of_update {cell : CellId} (hcell : cell.object ≠ object) (state : Cell)
    (holder : Option ℕ) :
    Untouched object t
      { shared := { t.shared with cells := Function.update t.shared.cells cell state }
        permit := Function.update t.permit cell holder } where
  entry := fun _ h => h
  cellOf := rfl
  cells := fun other hother => Function.update_of_ne (by rintro rfl; exact hcell hother) _ _
  permit := fun other hother => Function.update_of_ne (by rintro rfl; exact hcell hother) _ _

/-- **A step that concerns something else** leaves the object's metadata alone. -/
theorem untouched_of_plain (hnamed : CellsNamed t) (htends : a.tends object = false)
    (hcalm : a.invalidates object = false) (hexec : t.exec tid a choice = some (r, t')) :
    Untouched object t t' ∧ CellsNamed t' ∧ Labelled a r := by
  cases a with
  | indexPut id info site =>
      obtain ⟨s', hs', rfl⟩ := Tenancy.exec_eq_some_iff.mp hexec
      cases hs'
      have hne : id ≠ object := by
        cases site <;> simpa [Act.tends, Act.invalidates] using And.intro htends hcalm
      refine ⟨⟨fun entry hget => ?_, rfl, fun _ _ => rfl, fun _ _ => rfl⟩, hnamed, trivial⟩
      have hput := (ObjectIndex.get_put t.shared.index id object info).trans
        (if_neg (Ne.symm hne))
      exact hput.symm.trans hget
  | indexRemove ids =>
      obtain ⟨s', hs', rfl⟩ := Tenancy.exec_eq_some_iff.mp hexec
      cases hs'
      refine ⟨⟨fun entry hget => ?_, rfl, fun _ _ => rfl, fun _ _ => rfl⟩, hnamed, trivial⟩
      have hremoved := (ObjectIndex.get_removeAll t.shared.index ids object).symm.trans hget
      split at hremoved
      · cases hremoved
      · exact hremoved
  | cell id =>
      obtain ⟨s', hs', rfl⟩ := Tenancy.exec_eq_some_iff.mp hexec
      have hne : id ≠ object := by simpa [Act.tends] using htends
      simp only [exec] at hs'
      split at hs'
      · next found hfound =>
          cases hs'
          exact ⟨⟨fun _ h => h, rfl, fun _ _ => rfl, fun _ _ => rfl⟩, hnamed, hnamed id r hfound⟩
      · cases hs'
        refine ⟨⟨fun _ h => h, Function.update_of_ne (Ne.symm hne) _ _, fun _ _ => rfl,
          fun _ _ => rfl⟩, ?_, rfl⟩
        exact (Function.forall_update_iff t.shared.cellOf
          (p := fun id found => ∀ cell, found = some cell → cell.object = id)).mpr
          ⟨fun cell h => by rw [← Option.some.inj h], fun id _ => hnamed id⟩
  | cellEnter c =>
      obtain ⟨s', hs', rfl⟩ := Tenancy.exec_eq_some_iff.mp hexec
      have hne : c.object ≠ object := by simpa [Act.tends] using htends
      simp only [exec] at hs'
      split at hs' <;> cases hs'
      · exact ⟨⟨fun _ h => h, rfl, fun _ _ => rfl, fun _ _ => rfl⟩, hnamed, trivial⟩
      · exact ⟨untouched_of_update hne .busy (some tid), hnamed, trivial⟩
  | cellInit c info =>
      obtain ⟨s', hs', rfl⟩ := Tenancy.exec_eq_some_iff.mp hexec
      cases hs'
      have hne : c.object ≠ object := by simpa [Act.tends] using htends
      exact ⟨untouched_of_update hne (.ready info) none, hnamed, trivial⟩
  | cellAbandon c =>
      obtain ⟨s', hs', rfl⟩ := Tenancy.exec_eq_some_iff.mp hexec
      cases hs'
      have hne : c.object ≠ object := by simpa [Act.tends] using htends
      exact ⟨untouched_of_update hne .empty none, hnamed, trivial⟩
  | cellDrop id =>
      obtain ⟨s', hs', rfl⟩ := Tenancy.exec_eq_some_iff.mp hexec
      cases hs'
      have hne : id ≠ object := by simpa [Act.invalidates] using hcalm
      refine ⟨⟨fun _ h => h, Function.update_of_ne (Ne.symm hne) _ _, fun _ _ => rfl,
          fun _ _ => rfl⟩, ?_, trivial⟩
      exact (Function.forall_update_iff t.shared.cellOf
        (p := fun id found => ∀ cell, found = some cell → cell.object = id)).mpr
        ⟨(fun _ h => by cases h), fun id _ => hnamed id⟩
  | _ =>
      obtain ⟨huntouched, hcellOf⟩ := untouched_of_frame object hexec
        (by simp [Act.writes]) (by simp [Act.writes])
      exact ⟨huntouched, fun id cell h => hnamed id cell (hcellOf ▸ h), trivial⟩

end Plain

/-! ## What the steps about the object do -/

theorem Place.cell_of_held {k : Place} {cell : CellId} (h : k.held = some cell) :
    k.cell = some cell := by
  cases k <;> simp_all [Place.held, Place.cell]

section Steps

variable {w w' : TenantState} {tid other : ℕ} {k u : Place} {a : Act} {r : a.Res}

/-- The permit is one task's. -/
theorem Stands.unique (hkept : Kept object w) (hk : Stands object w tid k)
    (hu : Stands object w other u) {cell cell' : CellId} (hheld : k.held = some cell)
    (hheld' : u.held = some cell') : tid = other := by
  have hcell := hk.cell cell (Place.cell_of_held hheld)
  have hcell' := hu.cell cell' (Place.cell_of_held hheld')
  obtain rfl : cell = cell' := Option.some.inj (hcell.symm.trans hcell')
  have hobject := hkept.named object cell hcell
  have hpermit := (hk.permit cell hobject).mpr hheld
  have hpermit' := (hu.permit cell hobject).mpr hheld'
  exact Option.some.inj (hpermit.symm.trans hpermit')

/-- A task goes to another place, and nothing else happens. -/
theorem Stands.move {k' : Place} (h : Stands object w tid k) (hheld : k'.held = k.held)
    (hcell : ∀ cell, k'.cell = some cell → w.shared.shared.cellOf object = some cell)
    (htold : k'.Told (successes object w.log)) : Stands object w tid k' :=
  ⟨fun cell hobject => hheld ▸ h.permit cell hobject, hcell, htold⟩

/-- What a step of task `tid` at `k` comes to: the common ground is kept, the task has a
place again, and the others' permits are theirs.  If a probe succeeds in it, the task has
the permit. -/
structure Advance (object : ObjectId) (tid : ℕ) (k : Place) (a : Act) (r : a.Res)
    (w w' : TenantState) : Prop where
  kept : Kept object w'
  stands : ∃ k', k.Leads object a r k' ∧ Stands object w' tid k'
  permit : ∀ other, other ≠ tid → ∀ cell, cell.object = object →
    (w'.shared.permit cell = some other ↔ w.shared.permit cell = some other)
  cell : ∀ cell, w.shared.shared.cellOf object = some cell →
    w'.shared.shared.cellOf object = some cell
  succeeded : successes object w'.log = successes object w.log ∨
    successes object w.log = [] ∧ ∃ cell, k.held = some cell

/-- The other tasks stay where they are. -/
theorem Advance.others (h : Advance object tid k a r w w') (hkept : Kept object w)
    (hk : Stands object w tid k) (hne : other ≠ tid) (hu : Stands object w other u) :
    Stands object w' other u := by
  refine hu.congr (h.permit other hne) h.cell ?_
  refine h.succeeded.imp_right fun ⟨hnone, cell, hheld⟩ => ⟨hnone, ?_⟩
  cases hheld' : u.held with
  | none => rfl
  | some cell' => exact absurd (hk.unique hkept hu hheld hheld').symm hne

/-- A step that leaves the object's metadata alone. -/
theorem advance_of_untouched {t' : Tenancy} (k' : Place) (hkept : Kept object w)
    (huntouched : Untouched object w.shared t') (hnamed : CellsNamed t')
    (hnone : successOf object ⟨a, r⟩ = none)
    (hquiet : probes object a = true → successes object w.log = [])
    (hleads : k.Leads object a r k') (hstands : Stands object w tid k') :
    Advance object tid k a r w { shared := t', log := ⟨a, r⟩ :: w.log } := by
  have hlog := successes_cons_of_none w.log hnone
  refine ⟨hkept.congr huntouched hnamed hlog ⟨hquiet, hkept.quiet⟩, ⟨k', hleads, ?_⟩,
    fun _ _ cell hobject => ?_, fun cell hcell => ?_, .inl hlog⟩
  · refine hstands.congr (fun cell hobject => ?_) (fun cell hcell => ?_) (.inl hlog)
    · rw [huntouched.permit cell hobject]
    · exact huntouched.cellOf.trans hcell
  · rw [huntouched.permit cell hobject]
  · exact huntouched.cellOf.trans hcell

theorem Untouched.refl (t : Tenancy) : Untouched object t t :=
  ⟨fun _ h => h, rfl, fun _ _ => rfl, fun _ _ => rfl⟩

/-- Reading the index. -/
theorem advance_indexGet {site : ReadSite} (hkept : Kept object w) (hk : Stands object w tid k)
    (htends : (Act.indexGet object site).tends object = true)
    (hmay : k.MayTend (.indexGet object site)) :
    Advance object tid k (.indexGet object site) (w.shared.shared.index.get object) w
      { shared := w.shared
        log := ⟨.indexGet object site, w.shared.shared.index.get object⟩ :: w.log } := by
  suffices h : ∃ k', k.Tended (.indexGet object site) (w.shared.shared.index.get object) k' ∧
      Stands object w tid k' by
    obtain ⟨k', htended, hstands⟩ := h
    refine advance_of_untouched _ hkept (.refl _) hkept.named rfl nofun ?_ hstands
    rwa [Place.Leads, if_pos htends]
  have htold := hk.told
  have hentry := hkept.entry
  cases k with
  | written cell info => exact hmay.elim
  | inside cell =>
      rw [show successes object w.log = [] from htold] at hentry
      exact ⟨_, ⟨hentry, rfl⟩, hk⟩
  | aware record =>
      refine ⟨_, ⟨fun entry hget => ?_, rfl⟩, hk⟩
      obtain ⟨info, hinfo, rfl⟩ := htold
      obtain ⟨-, info', hinfo', hrecord⟩ := hentry.of_get hget
      rw [hinfo] at hinfo'
      cases hinfo'
      exact hrecord.symm
  | outside =>
      cases hget : w.shared.shared.index.get object with
      | none => exact ⟨_, rfl, hk⟩
      | some entry =>
          obtain ⟨hstale, hinfo⟩ := hentry.of_get hget
          exact ⟨_, ⟨hstale, rfl⟩, hk.move rfl nofun hinfo⟩
  | named cell =>
      cases hget : w.shared.shared.index.get object with
      | none => exact ⟨_, rfl, hk⟩
      | some entry =>
          obtain ⟨hstale, hinfo⟩ := hentry.of_get hget
          exact ⟨_, ⟨hstale, rfl⟩, hk.move rfl nofun hinfo⟩

/-- Writing back an entry with a new time of use. -/
theorem advance_touch {info read : ObjectMeta} (hkept : Kept object w) (hk : Stands object w tid k)
    (hmay : k.MayTend (.indexPut object info (.touch read))) :
    Advance object tid k (.indexPut object info (.touch read))
      (w.shared.shared.index.get object) w
      { shared := { w.shared with
          shared := { w.shared.shared with index := w.shared.shared.index.put object info } }
        log := ⟨.indexPut object info (.touch read), w.shared.shared.index.get object⟩ ::
          w.log } := by
  cases k with
  | aware record =>
      obtain ⟨written, hwritten, rfl⟩ := hk.told
      have hrecord : info.record = written.record := hmay
      have hlog : successes object
          (⟨.indexPut object info (.touch read), w.shared.shared.index.get object⟩ :: w.log) =
          successes object w.log := successes_cons_of_none _ rfl
      have hstale : written.stale = false := by
        have hentry := hkept.entry
        rw [hwritten] at hentry
        exact hentry.1
      refine ⟨{ hkept with ready := ?_, vacant := ?_, entry := ?_, quiet := ⟨nofun, hkept.quiet⟩ },
        ⟨.aware written.record, ?_, ?_⟩, fun _ _ _ _ => Iff.rfl, fun _ h => h, .inl hlog⟩
      · exact fun cell info' hobject hready => hlog.trans (hkept.ready cell info' hobject hready)
      · exact fun hempty => hlog.trans (hkept.vacant hempty)
      · rw [hlog, hwritten]
        refine ⟨hstale, fun entry hget => ?_⟩
        obtain rfl := Option.some.inj ((ObjectIndex.get_put_self _ _ _).symm.trans hget)
        exact hrecord
      · rw [Place.Leads, if_pos (by simp [Act.tends])]
        rfl
      · exact hk.congr (fun _ _ => Iff.rfl) (fun _ h => h) (.inl hlog)
  | _ => exact hmay.elim

/-- **A probe succeeds**: what it has learnt is written while its task has the permit, so
that no other probe has succeeded. -/
theorem advance_success {info : ObjectMeta} {read : Option ObjectMeta} (hkept : Kept object w)
    (hk : Stands object w tid k) (hmay : k.MayTend (.indexPut object info (.probe read))) :
    Advance object tid k (.indexPut object info (.probe read))
      (w.shared.shared.index.get object) w
      { shared := { w.shared with
          shared := { w.shared.shared with index := w.shared.shared.index.put object info } }
        log := ⟨.indexPut object info (.probe read), w.shared.shared.index.get object⟩ ::
          w.log } := by
  cases k with
  | inside cell =>
      have hnone : successes object w.log = [] := hk.told
      have hlog : successes object
          (⟨.indexPut object info (.probe read), w.shared.shared.index.get object⟩ :: w.log) =
          [info] := by
        have hsuccess : successOf object
            ⟨.indexPut object info (.probe read), w.shared.shared.index.get object⟩ = some info :=
          if_pos rfl
        rw [successes_cons_of_some _ hsuccess, hnone]
      have hcell := hk.cell cell rfl
      have hobject := hkept.named object cell hcell
      have hbusy := (hkept.busy cell hobject).mpr ⟨tid, (hk.permit cell hobject).mpr rfl⟩
      refine ⟨{ hkept with ready := ?_, vacant := ?_, entry := ?_, quiet := ⟨nofun, hkept.quiet⟩ },
        ⟨.written cell info, ?_, ?_⟩, fun _ _ _ _ => Iff.rfl, fun _ h => h,
        .inr ⟨hnone, cell, rfl⟩⟩
      · intro cell' info' hobject' hready
        exact absurd (hnone.symm.trans (hkept.ready cell' info' hobject' hready)) (by simp)
      · intro hempty
        exact absurd (hbusy.symm.trans (hempty cell hcell)) (by simp)
      · rw [hlog]
        refine ⟨hmay, fun entry hget => ?_⟩
        obtain rfl := Option.some.inj ((ObjectIndex.get_put_self _ _ _).symm.trans hget)
        rfl
      · rw [Place.Leads, if_pos (by simp [Act.tends])]
        rfl
      · exact ⟨hk.permit, hk.cell, hlog⟩
  | _ => exact hmay.elim

/-- Looking up the object's cell, which is made if there is none. -/
theorem advance_cell {choice : Choice} {cell : CellId} {t' : Tenancy} (hkept : Kept object w)
    (hk : Stands object w tid k) (hmay : k.MayTend (.cell object))
    (hexec : w.shared.exec tid (.cell object) choice = some (cell, t')) :
    Advance object tid k (.cell object) cell w
      { shared := t', log := ⟨.cell object, cell⟩ :: w.log } := by
  cases k with
  | outside =>
      have hleads : ∀ cell : CellId, cell.object = object →
          Place.outside.Leads object (.cell object) cell (.named cell) := by
        intro cell hobject
        rw [Place.Leads, if_pos (by simp [Act.tends])]
        exact ⟨hobject, rfl⟩
      obtain ⟨s', hs', rfl⟩ := Tenancy.exec_eq_some_iff.mp hexec
      simp only [exec] at hs'
      split at hs'
      · next found hfound =>
          cases hs'
          refine advance_of_untouched _ hkept (.refl _) hkept.named rfl (fun h => by cases h)
            (hleads _ (hkept.named object _ hfound)) (hk.move rfl (fun c hc => ?_) trivial)
          exact Option.some.inj hc ▸ hfound
      · next hnew =>
          -- the new cell is empty, like every cell of the object before it
          cases hs'
          have hlog : ∀ cell : CellId,
              successes object (⟨.cell object, cell⟩ :: w.log) = successes object w.log :=
            fun _ => successes_cons_of_none _ rfl
          have hnone : successes object w.log = [] :=
            hkept.vacant fun c hc => absurd (hnew.symm.trans hc) (by simp)
          refine ⟨⟨?_, ?_, hkept.busy, ?_, fun _ => ?_, ?_, (fun h => by cases h), hkept.quiet⟩,
            ⟨_, hleads _ rfl, ⟨hk.permit, fun c hc => ?_, trivial⟩⟩, fun _ _ _ _ => Iff.rfl,
            fun c hc => absurd (hnew.symm.trans hc) (by simp), .inl (hlog _)⟩
          · exact (Function.forall_update_iff w.shared.shared.cellOf
              (p := fun id found => ∀ c, found = some c → c.object = id)).mpr
              ⟨fun c h => by rw [← Option.some.inj h], fun id _ => hkept.named id⟩
          · exact fun c hobject _ => hkept.strange c hobject (by simp [hnew])
          · exact fun c info hobject hready => (hlog _).trans (hkept.ready c info hobject hready)
          · exact (hlog _).trans hnone
          · rw [hlog]
            exact hkept.entry
          · exact (Function.update_self object _ _).trans hc
  | _ => exact hmay.elim

/-- Entering the cell: it is set, or the permit is taken. -/
theorem advance_cellEnter {cell : CellId} {choice : Choice} {entry : CellEntry} {t' : Tenancy}
    (hkept : Kept object w) (hk : Stands object w tid k)
    (htends : (Act.cellEnter cell).tends object = true) (hmay : k.MayTend (.cellEnter cell))
    (hexec : w.shared.exec tid (.cellEnter cell) choice = some (entry, t')) :
    Advance object tid k (.cellEnter cell) entry w
      { shared := t', log := ⟨.cellEnter cell, entry⟩ :: w.log } := by
  cases k with
  | named known =>
      obtain rfl : cell = known := hmay
      have hcell := hk.cell cell rfl
      have hobject := hkept.named object cell hcell
      obtain ⟨s', hs', rfl⟩ := Tenancy.exec_eq_some_iff.mp hexec
      simp only [exec] at hs'
      split at hs'
      · next info hready =>
          cases hs'
          refine advance_of_untouched (.aware info.record) hkept (.refl _) hkept.named rfl
            (fun h => by cases h) ?_ (hk.move rfl (fun _ h => by cases h)
              ⟨info, hkept.ready cell info hobject hready, rfl⟩)
          rw [Place.Leads, if_pos htends]
          rfl
      · next hempty =>
          cases hs'
          have hlog : successes object (⟨.cellEnter cell, .claimed⟩ :: w.log) =
              successes object w.log := successes_cons_of_none _ rfl
          have hnone : successes object w.log = [] := by
            refine hkept.vacant fun c hc => ?_
            rw [← Option.some.inj (hcell.symm.trans hc)]
            exact hempty
          refine ⟨hkept.setCell hcell .busy (some tid) (by simp) (fun _ h => by cases h)
              (fun h => by cases h) hlog ⟨(fun h => by cases h), hkept.quiet⟩,
            ⟨.inside cell, ?_, ⟨fun c hc => ?_, fun c hc => ?_, hlog.trans hnone⟩⟩,
            fun other hne c hc => ?_, fun _ h => h, .inl hlog⟩
          · rw [Place.Leads, if_pos htends]
            rfl
          · have hfree := hk.permit c hc
            simp only [permitAfter, Function.update_apply, Place.held] at hfree ⊢
            split
            · next heq => simp [heq]
            · next hne =>
                rw [hfree]
                simp [Ne.symm hne]
          · exact Option.some.inj hc ▸ hcell
          · simp only [permitAfter, Function.update_apply]
            split
            · next heq =>
                -- the permit was free
                have hfree : ∀ tid, w.shared.permit c ≠ some tid := by
                  intro tid hpermit
                  have hbusy := (hkept.busy c hc).mpr ⟨tid, hpermit⟩
                  rw [heq, hempty] at hbusy
                  cases hbusy
                simp [Ne.symm hne, hfree other]
            · rfl
      · cases hs'
  | written known info => exact hmay.elim
  | _ => exact hmay.elim

/-- Giving the permit back, with the cell set to `state`. -/
theorem advance_leave {cell : CellId} {state : Cell} (k' : Place) (hkept : Kept object w)
    (hk : Stands object w tid k) (hheld : k.held = some cell) (hstate : state ≠ .busy)
    (hready : ∀ info, state = .ready info → successes object w.log = [info])
    (hvacant : state = .empty → successes object w.log = [])
    (hnone : successOf object ⟨a, r⟩ = none) (hprobes : probes object a = false)
    (hleads : k.Leads object a r k') (hcell' : k'.cell = none)
    (htold : k'.Told (successes object w.log)) :
    Advance object tid k a r w
      { shared :=
          { shared := { w.shared.shared with
              cells := Function.update w.shared.shared.cells cell state }
            permit := Function.update w.shared.permit cell none }
        log := ⟨a, r⟩ :: w.log } := by
  have hcell := hk.cell cell (Place.cell_of_held hheld)
  have hobject := hkept.named object cell hcell
  have hpermit := (hk.permit cell hobject).mpr hheld
  have hlog := successes_cons_of_none w.log hnone
  have hheld' : k'.held = none := by
    cases h : k'.held with
    | none => rfl
    | some c => exact absurd (hcell'.symm.trans (Place.cell_of_held h)) (by simp)
  refine ⟨hkept.setCell hcell state none (by simp [hstate]) hready hvacant hlog
      ⟨fun h => absurd (hprobes.symm.trans h) (by simp), hkept.quiet⟩,
    ⟨k', hleads, ⟨fun c hc => ?_, fun c hc => ?_, hlog.symm ▸ htold⟩⟩, fun other hne c hc => ?_,
    fun _ h => h, .inl hlog⟩
  · have hmine := hk.permit c hc
    simp only [Function.update_apply, hheld', reduceCtorEq, iff_false]
    split
    · simp
    · next hne =>
        rw [hmine, hheld]
        simp [Ne.symm hne]
  · rw [hcell'] at hc
    cases hc
  · simp only [Function.update_apply]
    split
    · next heq =>
        rw [heq, hpermit]
        simp [Ne.symm hne]
    · rfl

/-- **One step of one task.** -/
theorem advance {choice : Choice} {t' : Tenancy} (hkept : Kept object w)
    (hk : Stands object w tid k) (hmay : k.May object a) (hcalm : a.invalidates object = false)
    (hexec : w.shared.exec tid a choice = some (r, t')) :
    Advance object tid k a r w { shared := t', log := ⟨a, r⟩ :: w.log } := by
  cases htends : a.tends object with
  | false =>
      obtain ⟨huntouched, hnamed, hlabelled⟩ := untouched_of_plain hkept.named htends hcalm hexec
      refine advance_of_untouched _ hkept huntouched hnamed (successOf_eq_none htends r)
        (fun h => absurd ((probes_eq_false htends).symm.trans h) (by simp)) ?_ hk
      rw [Place.Leads, if_neg (by simp [htends])]
      exact ⟨rfl, hlabelled⟩
  | true =>
      rw [Place.May, if_pos htends] at hmay
      cases a with
      | indexGet id site =>
          obtain rfl : id = object := by
            cases site <;> simp_all [Act.tends]
          obtain ⟨s', hs', rfl⟩ := Tenancy.exec_eq_some_iff.mp hexec
          cases hs'
          exact advance_indexGet hkept hk htends hmay
      | indexPut id info site =>
          obtain ⟨s', hs', rfl⟩ := Tenancy.exec_eq_some_iff.mp hexec
          cases hs'
          cases site with
          | touch read =>
              obtain rfl : id = object := by simpa [Act.tends] using htends
              exact advance_touch hkept hk hmay
          | probe read =>
              obtain rfl : id = object := by simpa [Act.tends] using htends
              exact advance_success hkept hk hmay
          | invalidate read => cases htends
          | direct => cases htends
      | cell id =>
          obtain rfl : id = object := by simpa [Act.tends] using htends
          exact advance_cell hkept hk hmay hexec
      | cellEnter cell => exact advance_cellEnter hkept hk htends hmay hexec
      | cellInit cell info =>
          obtain ⟨s', hs', rfl⟩ := Tenancy.exec_eq_some_iff.mp hexec
          cases hs'
          cases k with
          | written held learnt =>
              obtain ⟨rfl, rfl⟩ : cell = held ∧ info = learnt := hmay
              have htold : successes object w.log = [info] := hk.told
              refine advance_leave (.aware info.record) hkept hk rfl nofun
                (fun i hi => ?_) nofun rfl rfl ?_ rfl ⟨info, htold, rfl⟩
              · cases hi
                exact htold
              · rw [Place.Leads, if_pos htends]
                rfl
          | _ => exact hmay.elim
      | cellAbandon cell =>
          obtain ⟨s', hs', rfl⟩ := Tenancy.exec_eq_some_iff.mp hexec
          cases hs'
          cases k with
          | inside held =>
              obtain rfl : cell = held := hmay
              refine advance_leave .outside hkept hk rfl nofun nofun (fun _ => hk.told)
                rfl rfl ?_ rfl trivial
              rw [Place.Leads, if_pos htends]
              rfl
          | _ => exact hmay.elim
      | send purpose request =>
          cases k with
          | inside cell =>
              obtain ⟨s', hs', rfl⟩ := Tenancy.exec_eq_some_iff.mp hexec
              obtain rfl := exec_network rfl hs'
              refine advance_of_untouched _ hkept (.refl _) hkept.named rfl (fun _ => hk.told) ?_ hk
              rw [Place.Leads, if_pos htends]
              rfl
          | _ => exact hmay.elim
      | _ => cases htends

/-- **A task is dropped** where it waits, so not between what its probe has learnt entering
the index and the cell being set. -/
theorem vacated (hkept : Kept object w) (hk : Stands object w tid k) (hmay : k.May object a)
    (hawaits : a.awaits = true) :
    Kept object { w with shared := w.shared.vacate tid } ∧
      ∀ other u, other ≠ tid → Stands object w other u →
        Stands object { w with shared := w.shared.vacate tid } other u := by
  constructor
  · cases hheld : k.held with
    | none =>
        have hfree : ∀ cell, cell.object = object → w.shared.permit cell ≠ some tid := by
          intro cell hobject hpermit
          exact absurd (hheld.symm.trans ((hk.permit cell hobject).mp hpermit)) (by simp)
        refine hkept.congr ⟨fun _ h => h, rfl, fun cell hobject => ?_, fun cell hobject => ?_⟩
          hkept.named rfl hkept.quiet
        · exact if_neg (hfree cell hobject)
        · exact if_neg (hfree cell hobject)
    | some cell =>
        have hcell := hk.cell cell (Place.cell_of_held hheld)
        have hnone : successes object w.log = [] := by
          cases k with
          | inside _ => exact hk.told
          | written _ _ =>
              rw [Place.May] at hmay
              split at hmay
              · cases a <;> first | exact hmay.elim | cases hawaits
              · exact absurd rfl (hmay _ _)
          | _ => cases hheld
        have hset := hkept.setCell hcell .empty none (by simp) nofun (fun _ => hnone) rfl
          hkept.quiet
        refine hset.congr ⟨fun _ h => h, rfl, fun c hobject => ?_, fun c hobject => ?_⟩
          hset.named rfl hset.quiet
        all_goals
          have hmine := hk.permit c hobject
          rw [hheld, Option.some.injEq, @eq_comm _ cell c] at hmine
          simp only [Tenancy.vacate, Function.update_apply, hmine]
  · intro other u hne hu
    refine hu.congr (fun cell _ => ?_) (fun _ h => h) (.inl rfl)
    simp only [Tenancy.vacate]
    split
    · next hpermit =>
        rw [hpermit]
        simp [Ne.symm hne]
    · rfl

end Steps

variable (object) in
/-- The rules of the object's metadata, for all the tasks of the process. -/
def tending : Custody tenants Place where
  idle := .outside
  may := Place.May object
  leads := Place.Leads object
  admits := fun a => a.invalidates object = false
  inv := Kept object
  holds := Stands object
  own := fun hkept hk hmay hcalm hexec =>
    have h := advance hkept hk hmay hcalm hexec
    ⟨h.kept, h.stands⟩
  others := fun hkept hk hmay hcalm hexec hne hu =>
    (advance hkept hk hmay hcalm hexec).others hkept hk hne hu
  dropped := fun {w tid k a s'} hkept hk hmay hdrop => by
    obtain ⟨hawaits, rfl⟩ : a.awaits = true ∧ w.shared.vacate tid = s' := by
      simpa [tenants, Tenancy.drop] using hdrop
    exact vacated hkept hk hmay hawaits

end Object

end Cachic
