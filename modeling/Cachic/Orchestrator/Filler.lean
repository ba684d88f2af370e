import Cachic.Lib.Team
import Cachic.Orchestrator.Programs

/-!
# The fill protocol, one step at a time

`ensureFilled` in `Cachic.Orchestrator.Programs` waits for a fill in one step.  Here the
wait is the loop of `wait_for` over a watch channel: the receiver reads the latest value
and remembers its version, and `changed` resolves once there is a newer one or the sender is
gone.  The sender lives as long as the registry or the filler holds the `Fill`, and a filling
task may be dropped or panic at any of its steps.

A requester is a position in `ensure_filled`, `run_fill` or `wait_for` (`FillPc`); every
other task of the process is a program that leaves fills alone.  `fillMachine` is all of them
over one `FillState`.  The last four fields of that state are only written, to say who
claimed a fill and what it has stored.
-/

namespace Cachic

open Range ActionLang ThreadTeam

/-- A call of `ensure_filled`. -/
structure FillCall where
  plan : Plan
  url : String
  headers : HeaderMap
  index : ℕ

def FillCall.key (call : FillCall) : SliceKey := call.plan.sliceKey call.index

def Progress.isTerminal : Progress → Bool
  | .ready _ => false
  | .complete _ => true
  | .failed _ => true

/-! ## The state -/

structure FillState where
  shared : Shared
  /-- the version of each fill's channel -/
  version : FillId → ℕ
  /-- whether the filling task still holds the fill -/
  held : FillId → Bool
  /-- the thread that claimed a fill -/
  owner : FillId → ℕ
  /-- the generation its slices are stored under -/
  generation : FillId → ℕ
  /-- the slices it has stored -/
  inserted : FillId → ℕ → Bool
  /-- the slices that have been in the store at some time -/
  written : SliceKey → Bool

namespace FillState

variable (w : FillState)

/-- A process that has just started over a data directory. -/
def boot (index : ObjectIndex) (store : SliceKey → Option SliceValue) (fresh : ℕ) : FillState where
  shared := .boot index store fresh
  version := fun _ => 0
  held := fun _ => false
  owner := fun _ => 0
  generation := fun _ => 0
  inserted := fun _ _ => false
  written := fun key => (store key).isSome

/-- The registry has this fill. -/
def Registered (fill : FillId) : Prop := w.shared.fillOf fill.object = some fill

instance (fill : FillId) : Decidable (w.Registered fill) :=
  inferInstanceAs (Decidable (w.shared.fillOf fill.object = some fill))

/-- Somebody holds the sending half. -/
def isOpen (fill : FillId) : Bool := w.held fill || decide (w.Registered fill)

/-- Everything else goes on to `shared`. -/
def next (shared : Shared) : FillState :=
  { w with shared := shared
           written := fun key => w.written key || (shared.store key).isSome }

/-- `claim` for an object nobody fills. -/
def claim (tid : ℕ) (plan : Plan) (fill : FillId) : FillState :=
  { w with shared := { w.shared with
             fillOf := Function.update w.shared.fillOf plan.object (some fill)
             fresh := w.shared.fresh + 1 }
           held := Function.update w.held fill true
           owner := Function.update w.owner fill tid
           generation := Function.update w.generation fill plan.info.generation }

/-- A fill stores a slice. -/
def insert (fill : FillId) (key : SliceKey) (value : SliceValue) : FillState :=
  { w.next (w.shared.land key value) with
    inserted := Function.update w.inserted fill
      (Function.update (w.inserted fill) key.index true) }

/-- `send_replace`. -/
def publish (fill : FillId) (progress : Progress) : FillState :=
  { w with shared := { w.shared with fills := Function.update w.shared.fills fill progress }
           version := Function.update w.version fill (w.version fill + 1) }

/-- The registry forgets an object's fill. -/
def release (object : ObjectId) : FillState :=
  { w with shared := { w.shared with fillOf := Function.update w.shared.fillOf object none } }

/-- The filling task lets go of the fill, which closes the channel unless the registry has
it. -/
def letGo (fill : FillId) : FillState := { w with held := Function.update w.held fill false }

end FillState

/-! ## The steps -/

/-- A stream being cut: what is still to come, what has been read and not stored, and the
index of the next slice. -/
structure Streaming where
  chunks : List (List UInt8)
  failure : Option TransportError
  buffer : List UInt8
  index : ℕ

/-- A position in `ensure_filled`. -/
inductive FillPc
  | starting
  | claiming
  /-- `wait_for`, before `borrow_and_update` -/
  | polling (fill : FillId)
  /-- `wait_for`, in `changed` -/
  | waiting (fill : FillId) (seen : ℕ)
  /-- `run_fill`, in `fetch_stream` -/
  | opening (fill : FillId)
      (rest : Task (Except UpstreamError (List (List UInt8) × Option TransportError)))
  /-- before the stream's next chunk -/
  | reading (fill : FillId) (stream : Streaming)
  /-- before a slice is stored -/
  | inserting (fill : FillId) (stream : Streaming)
  /-- before it is published -/
  | publishing (fill : FillId) (stream : Streaming)
  /-- after `run_fill`, before `release` -/
  | releasing (fill : FillId) (result : Except OrchestratorError ℕ)
  /-- before `complete` or `fail` -/
  | announcing (fill : FillId) (result : Except OrchestratorError ℕ)
  /-- with the fill it waited for or performed, if any -/
  | returned (via : Option FillId) (result : Except OrchestratorError Unit)
  /-- dropped, or panicked -/
  | abandoned (fill : FillId)

/-- Read on: the next chunk goes to the buffer, and a buffer that holds a slice is cut.  At
the end of the stream what is left is a slice of its own. -/
def Streaming.read (cfg : Config) (fill : FillId) (url : String) (stream : Streaming) : FillPc :=
  match stream.chunks with
  | chunk :: rest =>
      let stream := { stream with chunks := rest, buffer := stream.buffer ++ chunk }
      if cfg.sliceSize ≤ stream.buffer.length then .inserting fill stream
      else .reading fill stream
  | [] =>
      match stream.failure with
      | some source => .releasing fill (.error (.upstream (.request url source)))
      | none =>
          if stream.buffer = [] then .releasing fill (.ok stream.index)
          else .inserting fill stream

/-- The slice at the front of the buffer. -/
def Streaming.front (cfg : Config) (plan : Plan) (stream : Streaming) : SliceValue where
  header := headerFor plan.info cfg.sliceSize
  payload := stream.buffer.take cfg.sliceSize

/-- The stream without it. -/
def Streaming.cut (cfg : Config) (stream : Streaming) : Streaming :=
  { stream with buffer := stream.buffer.drop cfg.sliceSize, index := wrapAdd 32 stream.index 1 }

/-- After a slice is published. -/
def Streaming.resume (cfg : Config) (fill : FillId) (stream : Streaming) : FillPc :=
  if cfg.sliceSize ≤ stream.buffer.length then .inserting fill stream else .reading fill stream

/-- The terminal state of a fill. -/
def terminalOf (cfg : Config) : Except OrchestratorError ℕ → Progress
  | .ok count => .complete count
  | .error e => .failed (e.text cfg)

/-- What the filler itself returns. -/
def fillerResult (url : String) (index : ℕ) :
    Except OrchestratorError ℕ → Except OrchestratorError Unit
  | .ok count =>
      if index < count then .ok ()
      else .error (.fill url s!"fill produced {count} slices; slice {index} was never reached")
  | .error e => .error e

/-- What a subscriber returns. -/
def subscriberResult (url : String) : Except String Unit → Except OrchestratorError Unit
  | .ok () => .ok ()
  | .error reason => .error (.fill url reason)

def FillPc.move (cfg : Config) (tid : ℕ) (call : FillCall) :
    FillPc → Choice → FillState → Option (FillPc × FillState)
  | .starting, choice, w =>
      let shared := w.shared.settle call.key choice
      some (if (shared.store call.key).isSome then .returned none (.ok ()) else .claiming,
        w.next shared)
  | .claiming, _, w =>
      match w.shared.fillOf call.plan.object with
      | some fill => some (.polling fill, w)
      | none =>
          let fill : FillId := { object := call.plan.object, serial := w.shared.fresh }
          let purpose : Purpose := .fill call.plan.object (headerFor call.plan.info cfg.sliceSize)
          some (.opening fill (fetchStream purpose call.url call.headers),
            w.claim tid call.plan fill)
  | .polling fill, _, w =>
      match (w.shared.fills fill).verdict call.index with
      | some answer => some (.returned (some fill) (subscriberResult call.url answer), w)
      | none => some (.waiting fill (w.version fill), w)
  | .waiting fill seen, _, w =>
      if seen < w.version fill then some (.polling fill, w)
      else if w.isOpen fill then none
      else some (.returned (some fill) (subscriberResult call.url
        (.error "the fill was abandoned without completing")), w)
  | .opening fill (.act a rest), choice, w =>
      (exec a choice w.shared).map fun r => (.opening fill (rest r.1), w.next r.2)
  | .opening fill (.ret (.error e)), _, w => some (.releasing fill (.error (.upstream e)), w)
  | .opening fill (.ret (.ok (chunks, failure))), _, w =>
      some (.reading fill
        { chunks := chunks, failure := failure, buffer := [], index := 0 }, w)
  | .reading fill stream, _, w => some (stream.read cfg fill call.url, w)
  | .inserting fill stream, _, w =>
      some (.publishing fill (stream.cut cfg),
        w.insert fill (call.plan.sliceKey stream.index) (stream.front cfg call.plan))
  | .publishing fill stream, _, w =>
      some (stream.resume cfg fill, w.publish fill (.ready stream.index))
  | .releasing fill result, _, w => some (.announcing fill result, w.release call.plan.object)
  | .announcing fill result, _, w =>
      some (.returned (some fill) (fillerResult call.url call.index result),
        (w.letGo fill).publish fill (terminalOf cfg result))
  | .returned _ _, _, _ => none
  | .abandoned _, _, _ => none

/-- The fill a position is responsible for. -/
def FillPc.fills : FillPc → Option FillId
  | .opening fill _ => some fill
  | .reading fill _ => some fill
  | .inserting fill _ => some fill
  | .publishing fill _ => some fill
  | .releasing fill _ => some fill
  | .announcing fill _ => some fill
  | _ => none

/-- The steps on fills. -/
def Act.onFills : Act → Bool
  | .fillClaim _ => true
  | .fillRelease _ => true
  | .fillPublish _ _ => true
  | .fillWait _ _ => true
  | _ => false

/-- A requester, or some other task of the process. -/
inductive FillThread
  | requester (call : FillCall) (pc : FillPc)
  | other (rest : Task Unit)

inductive FillChoice
  | go (choice : Choice)
  /-- the task is dropped, or panics -/
  | abandon

namespace FillThread

def start : FillThread → Bool
  | .requester _ .starting => true
  | .requester _ _ => false
  | .other _ => true

def move (cfg : Config) (tid : ℕ) (t : FillThread) (choice : FillChoice) (w : FillState) :
    Option (FillThread × FillState) :=
  match t, choice with
  | .requester call pc, .go choice =>
      (pc.move cfg tid call choice w).map fun r => (.requester call r.1, r.2)
  | .requester call pc, .abandon =>
      pc.fills.map fun fill => (.requester call (.abandoned fill), w.letGo fill)
  | .other (.act a rest), .go choice =>
      if a.onFills then none
      else (exec a choice w.shared).map fun r => (.other (rest r.1), w.next r.2)
  | .other _, _ => none

end FillThread

def fillMachine (cfg : Config) : Machine FillState FillThread FillChoice where
  start := FillThread.start
  move := FillThread.move cfg

abbrev FillTeam := Team FillState FillThread

/-- The team of a process that has just started. -/
def FillTeam.boot (index : ObjectIndex) (store : SliceKey → Option SliceValue) (fresh : ℕ) :
    FillTeam :=
  { shared := .boot index store fresh, threads := [] }

/-! ## The ways out of a position -/

/-- The moves of a requester, one rule for each branch of the source. -/
inductive FillPc.Moves (cfg : Config) (tid : ℕ) (call : FillCall) (w : FillState) :
    FillPc → FillPc → FillState → Prop
  | found {choice : Choice}
      (hstored : ((w.shared.settle call.key choice).store call.key).isSome = true) :
      Moves cfg tid call w .starting (.returned none (.ok ()))
        (w.next (w.shared.settle call.key choice))
  | missing {choice : Choice}
      (hmissing : (w.shared.settle call.key choice).store call.key = none) :
      Moves cfg tid call w .starting .claiming (w.next (w.shared.settle call.key choice))
  | subscribe {fill : FillId} (hfill : w.shared.fillOf call.plan.object = some fill) :
      Moves cfg tid call w .claiming (.polling fill) w
  | claim (hnone : w.shared.fillOf call.plan.object = none) :
      Moves cfg tid call w .claiming
        (.opening ⟨call.plan.object, w.shared.fresh⟩
          (fetchStream (.fill call.plan.object (headerFor call.plan.info cfg.sliceSize)) call.url
            call.headers))
        (w.claim tid call.plan ⟨call.plan.object, w.shared.fresh⟩)
  | told {fill : FillId} {answer : Except String Unit}
      (hanswer : (w.shared.fills fill).verdict call.index = some answer) :
      Moves cfg tid call w (.polling fill)
        (.returned (some fill) (subscriberResult call.url answer)) w
  | wait {fill : FillId} (hnone : (w.shared.fills fill).verdict call.index = none) :
      Moves cfg tid call w (.polling fill) (.waiting fill (w.version fill)) w
  | wake {fill : FillId} {seen : ℕ} (hnewer : seen < w.version fill) :
      Moves cfg tid call w (.waiting fill seen) (.polling fill) w
  | closed {fill : FillId} {seen : ℕ} (hsame : w.version fill ≤ seen)
      (hclosed : w.isOpen fill = false) :
      Moves cfg tid call w (.waiting fill seen) (.returned (some fill)
        (subscriberResult call.url (.error "the fill was abandoned without completing"))) w
  | network {fill : FillId} {a : Act}
      {rest : a.Res → Task (Except UpstreamError (List (List UInt8) × Option TransportError))}
      {choice : Choice} {r : a.Res} {shared : Shared}
      (hexec : exec a choice w.shared = some (r, shared)) :
      Moves cfg tid call w (.opening fill (.act a rest)) (.opening fill (rest r)) (w.next shared)
  | refused {fill : FillId} {e : UpstreamError} :
      Moves cfg tid call w (.opening fill (.ret (.error e)))
        (.releasing fill (.error (.upstream e))) w
  | opened {fill : FillId} {chunks : List (List UInt8)} {failure : Option TransportError} :
      Moves cfg tid call w (.opening fill (.ret (.ok (chunks, failure))))
        (.reading fill { chunks := chunks, failure := failure, buffer := [], index := 0 }) w
  | read {fill : FillId} {stream : Streaming} :
      Moves cfg tid call w (.reading fill stream) (stream.read cfg fill call.url) w
  | insert {fill : FillId} {stream : Streaming} :
      Moves cfg tid call w (.inserting fill stream) (.publishing fill (stream.cut cfg))
        (w.insert fill (call.plan.sliceKey stream.index) (stream.front cfg call.plan))
  | publish {fill : FillId} {stream : Streaming} :
      Moves cfg tid call w (.publishing fill stream) (stream.resume cfg fill)
        (w.publish fill (.ready stream.index))
  | release {fill : FillId} {result : Except OrchestratorError ℕ} :
      Moves cfg tid call w (.releasing fill result) (.announcing fill result)
        (w.release call.plan.object)
  | announce {fill : FillId} {result : Except OrchestratorError ℕ} :
      Moves cfg tid call w (.announcing fill result)
        (.returned (some fill) (fillerResult call.url call.index result))
        ((w.letGo fill).publish fill (terminalOf cfg result))

/-- There are no others. -/
theorem FillPc.moves_of_move {cfg : Config} {tid : ℕ} {call : FillCall} {w w' : FillState}
    {pc pc' : FillPc} {choice : Choice}
    (h : pc.move cfg tid call choice w = some (pc', w')) : pc.Moves cfg tid call w pc' w' := by
  cases pc with
  | starting =>
      cases h
      split
      · next hstored => exact .found hstored
      · next hmissing => exact .missing (by simpa using hmissing)
  | claiming =>
      simp only [FillPc.move] at h
      split at h
      · next fill hfill =>
          cases h
          exact .subscribe hfill
      · next hnone =>
          cases h
          exact .claim hnone
  | polling fill =>
      simp only [FillPc.move] at h
      split at h
      · next answer hanswer =>
          cases h
          exact .told hanswer
      · next hnone =>
          cases h
          exact .wait hnone
  | waiting fill seen =>
      simp only [FillPc.move] at h
      split at h
      · next hnewer =>
          cases h
          exact .wake hnewer
      · next hsame =>
          split at h
          · cases h
          · next hclosed =>
              cases h
              exact .closed (not_lt.mp hsame) (by simpa using hclosed)
  | opening fill rest =>
      rcases rest with (e | ⟨chunks, failure⟩) | ⟨a, rest⟩
      · cases h
        exact .refused
      · cases h
        exact .opened
      · simp only [FillPc.move, Option.map_eq_some_iff, Prod.mk.injEq] at h
        obtain ⟨⟨r, shared⟩, hexec, rfl, rfl⟩ := h
        exact .network hexec
  | reading fill stream => cases h; exact .read
  | inserting fill stream => cases h; exact .insert
  | publishing fill stream => cases h; exact .publish
  | releasing fill result => cases h; exact .release
  | announcing fill result => cases h; exact .announce
  | returned via result => cases h
  | abandoned fill => cases h

/-- The moves of any thread: a requester's own, its end by force, and a step of another
task. -/
inductive FillThread.Moves (cfg : Config) (tid : ℕ) (w : FillState) :
    FillThread → FillThread → FillState → Prop
  | requester {call : FillCall} {pc pc' : FillPc} {w' : FillState}
      (hpc : pc.Moves cfg tid call w pc' w') :
      Moves cfg tid w (.requester call pc) (.requester call pc') w'
  | abandon {call : FillCall} {pc : FillPc} {fill : FillId} (hfill : pc.fills = some fill) :
      Moves cfg tid w (.requester call pc) (.requester call (.abandoned fill)) (w.letGo fill)
  | other {a : Act} {rest : a.Res → Task Unit} {choice : Choice} {r : a.Res} {shared : Shared}
      (hother : a.onFills = false) (hexec : exec a choice w.shared = some (r, shared)) :
      Moves cfg tid w (.other (.act a rest)) (.other (rest r)) (w.next shared)

theorem FillThread.moves_of_move {cfg : Config} {tid : ℕ} {w w' : FillState} {t t' : FillThread}
    {choice : FillChoice} (h : t.move cfg tid choice w = some (t', w')) :
    t.Moves cfg tid w t' w' := by
  rcases t with ⟨call, pc⟩ | ⟨⟨⟩ | ⟨a, rest⟩⟩ <;> rcases choice with choice | _
  · simp only [FillThread.move, Option.map_eq_some_iff, Prod.mk.injEq] at h
    obtain ⟨⟨pc', v⟩, hpc, rfl, rfl⟩ := h
    exact .requester (FillPc.moves_of_move hpc)
  · simp only [FillThread.move, Option.map_eq_some_iff, Prod.mk.injEq] at h
    obtain ⟨fill, hfill, rfl, rfl⟩ := h
    exact .abandon hfill
  · cases h
  · cases h
  · simp only [FillThread.move] at h
    split at h
    · cases h
    · next hother =>
        simp only [Option.map_eq_some_iff, Prod.mk.injEq] at h
        obtain ⟨⟨r, shared⟩, hexec, rfl, rfl⟩ := h
        exact .other (by simpa using hother) hexec
  · cases h

/-! ## What a step can do to a fill -/

namespace FillState

/-- Nothing about `fill` is different in `w'`. -/
structure Agrees (fill : FillId) (w w' : FillState) : Prop where
  progress : w'.shared.fills fill = w.shared.fills fill
  version : w'.version fill = w.version fill
  held : w'.held fill = w.held fill
  inserted : w'.inserted fill = w.inserted fill
  registered : w'.Registered fill ↔ w.Registered fill

/-- What a step of thread `tid` can do: a fill it has not claimed stays as it is, and so does
one nobody holds any more; one that has left the registry does not come back; what is
recorded only grows. -/
structure Shift (tid : ℕ) (w w' : FillState) : Prop where
  fresh : w.shared.fresh ≤ w'.shared.fresh
  owner : ∀ fill, fill.serial < w.shared.fresh → w'.owner fill = w.owner fill
  generation : ∀ fill, fill.serial < w.shared.fresh → w'.generation fill = w.generation fill
  moved : ∀ fill, w'.shared.fills fill = w.shared.fills fill ∧ w'.version fill = w.version fill ∨
    w.version fill < w'.version fill
  inserted : ∀ fill index, w.inserted fill index = true → w'.inserted fill index = true
  written : ∀ key, w.written key = true → w'.written key = true
  registered : ∀ fill, fill.serial < w.shared.fresh → w'.Registered fill → w.Registered fill
  others : ∀ fill, fill.serial < w.shared.fresh →
    w.owner fill ≠ tid ∨ w.held fill = false → Agrees fill w w'

variable {w : FillState} {tid : ℕ} {fill : FillId}

/-- A step outside the fills. -/
theorem Shift.next {shared : Shared} (hfillOf : shared.fillOf = w.shared.fillOf)
    (hfills : shared.fills = w.shared.fills) (hfresh : w.shared.fresh ≤ shared.fresh) :
    Shift tid w (w.next shared) where
  fresh := hfresh
  owner := fun _ _ => rfl
  generation := fun _ _ => rfl
  moved := fun _ => .inl ⟨congrFun hfills _, rfl⟩
  inserted := fun _ _ h => h
  written := fun key h => by simp [FillState.next, h]
  registered := fun g _ h => by
    unfold Registered at h ⊢
    exact hfillOf ▸ h
  others := fun g _ _ => by
    refine ⟨congrFun hfills g, rfl, rfl, rfl, ?_⟩
    show shared.fillOf g.object = some g ↔ _
    rw [hfillOf]
    rfl

theorem Shift.refl : Shift tid w w where
  fresh := le_rfl
  owner := fun _ _ => rfl
  generation := fun _ _ => rfl
  moved := fun _ => .inl ⟨rfl, rfl⟩
  inserted := fun _ _ h => h
  written := fun _ h => h
  registered := fun _ _ h => h
  others := fun _ _ _ => ⟨rfl, rfl, rfl, rfl, Iff.rfl⟩

/-- A fill that is another's or nobody's is not the one the mover holds. -/
theorem ne_of_held {g : FillId} (howner : w.owner fill = tid) (hheld : w.held fill = true)
    (hg : w.owner g ≠ tid ∨ w.held g = false) : g ≠ fill := by
  rintro rfl
  rcases hg with hne | hfree
  · exact hne howner
  · rw [hheld] at hfree
    cases hfree

/-- A fill in use is not the one that is claimed next. -/
theorem ne_of_serial {g : FillId} (hg : g.serial < w.shared.fresh)
    (hfill : fill.serial = w.shared.fresh) : g ≠ fill := by
  rintro rfl
  omega

theorem Shift.claim {plan : Plan} (hnone : w.shared.fillOf plan.object = none)
    (hserial : fill.serial = w.shared.fresh) :
    Shift tid w (w.claim tid plan fill) := by
  have hregistered : ∀ g : FillId, g.serial < w.shared.fresh →
      ((w.claim tid plan fill).Registered g ↔ w.Registered g) := by
    intro g hg
    have hne := ne_of_serial hg hserial
    by_cases hsame : g.object = plan.object
    · simp [Registered, FillState.claim, hsame, hnone, hne.symm]
    · simp [Registered, FillState.claim, hsame]
  refine
    { fresh := Nat.le_succ _
      owner := fun g hg => Function.update_of_ne (ne_of_serial hg hserial) _ _
      generation := fun g hg => Function.update_of_ne (ne_of_serial hg hserial) _ _
      moved := fun _ => .inl ⟨rfl, rfl⟩
      inserted := fun _ _ h => h
      written := fun _ h => h
      registered := fun g hg h => (hregistered g hg).mp h
      others := fun g hg _ => ⟨rfl, rfl, ?_, rfl, hregistered g hg⟩ }
  exact Function.update_of_ne (ne_of_serial hg hserial) _ _

theorem Shift.insert {key : SliceKey} {value : SliceValue} (howner : w.owner fill = tid)
    (hheld : w.held fill = true) : Shift tid w (w.insert fill key value) where
  fresh := le_rfl
  owner := fun _ _ => rfl
  generation := fun _ _ => rfl
  moved := fun _ => .inl ⟨rfl, rfl⟩
  inserted := fun g index h => by
    by_cases hg : g = fill
    · subst hg
      by_cases hindex : index = key.index
      · simp [FillState.insert, hindex]
      · simpa [FillState.insert, hindex] using h
    · simpa [FillState.insert, hg] using h
  written := fun k h => by simp [FillState.insert, FillState.next, h]
  registered := fun _ _ h => h
  others := fun g _ hne => by
    have hg := ne_of_held howner hheld hne
    exact ⟨rfl, rfl, rfl, Function.update_of_ne hg _ _, Iff.rfl⟩

theorem Shift.publish {progress : Progress} (howner : w.owner fill = tid)
    (hheld : w.held fill = true) : Shift tid w (w.publish fill progress) where
  fresh := le_rfl
  owner := fun _ _ => rfl
  generation := fun _ _ => rfl
  moved := fun g => by
    by_cases hg : g = fill
    · subst hg
      right
      simp [FillState.publish]
    · left
      exact ⟨Function.update_of_ne hg _ _, Function.update_of_ne hg _ _⟩
  inserted := fun _ _ h => h
  written := fun _ h => h
  registered := fun _ _ h => h
  others := fun g _ hne => by
    have hg := ne_of_held howner hheld hne
    exact ⟨Function.update_of_ne hg _ _, Function.update_of_ne hg _ _, rfl, rfl, Iff.rfl⟩

theorem registered_release {object : ObjectId} {g : FillId} :
    (w.release object).Registered g ↔ w.Registered g ∧ g.object ≠ object := by
  by_cases hobject : g.object = object
  · simp [Registered, FillState.release, hobject]
  · simp [Registered, FillState.release, hobject]

theorem Shift.release {object : ObjectId} (howner : w.owner fill = tid)
    (hheld : w.held fill = true) (hregistered : w.shared.fillOf object = some fill) :
    Shift tid w (w.release object) where
  fresh := le_rfl
  owner := fun _ _ => rfl
  generation := fun _ _ => rfl
  moved := fun _ => .inl ⟨rfl, rfl⟩
  inserted := fun _ _ h => h
  written := fun _ h => h
  registered := fun _ _ h => (registered_release.mp h).1
  others := fun g _ hne => by
    refine ⟨rfl, rfl, rfl, rfl, registered_release.trans (and_iff_left_of_imp ?_)⟩
    intro hg hobject
    unfold Registered at hg
    rw [hobject, hregistered, Option.some.injEq] at hg
    exact ne_of_held howner hheld hne hg.symm

theorem Shift.letGo (howner : w.owner fill = tid) (hheld : w.held fill = true) :
    Shift tid w (w.letGo fill) where
  fresh := le_rfl
  owner := fun _ _ => rfl
  generation := fun _ _ => rfl
  moved := fun _ => .inl ⟨rfl, rfl⟩
  inserted := fun _ _ h => h
  written := fun _ h => h
  registered := fun _ _ h => h
  others := fun g _ hne => by
    have hg := ne_of_held howner hheld hne
    exact ⟨rfl, rfl, Function.update_of_ne hg _ _, rfl, Iff.rfl⟩

/-- The end of a fill is published by a task that lets go of it. -/
theorem Shift.announce {progress : Progress} (howner : w.owner fill = tid)
    (hheld : w.held fill = true) : Shift tid w ((w.letGo fill).publish fill progress) := by
  have hp := @Shift.publish w tid fill progress howner hheld
  have hl := Shift.letGo howner hheld
  refine
    { fresh := le_rfl
      owner := fun _ _ => rfl
      generation := fun _ _ => rfl
      moved := hp.moved
      inserted := fun _ _ h => h
      written := fun _ h => h
      registered := fun _ _ h => h
      others := fun g hg hne => ?_ }
  have hpublished := hp.others g hg hne
  exact ⟨hpublished.progress, hpublished.version, (hl.others g hg hne).held, rfl, Iff.rfl⟩

end FillState

end Cachic
