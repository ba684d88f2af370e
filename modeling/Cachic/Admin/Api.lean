import Cachic.Lib.Codec
import Cachic.Proxy.Handle

/-!
# The operator API

The admin port answers `/stats`, `/services`, `/purge` and `/drain`.  All four are refused until
the process has published their state, and to a request without the token; the two that change
something are refused, besides, when nothing authenticates them and the port is not confined to
the machine itself.

A handler is a program whose steps are those of `AdminAct`; what they do is said in
`Cachic.Lifecycle`.  `Endpoint.handler_checked` is what the refusals come to: no step on the
cache, and no drain, without credentials.

axum stands before the handlers: it finds the route, and it decodes the query of `/purge`, which
it answers 400 where it cannot (`?all=banana`), before anything here runs.  The index is redb,
and never fails here.  In the source `/purge` answers 500 if it cannot list the keys, before it
removes anything, and goes on past an entry that it cannot read or remove; `/stats` puts a zero
for a number it cannot read.
-/

namespace Cachic

open ActionLang CharText ByteCodec

/-! ## The token -/

/-- The bearer token, if one is configured. -/
structure AuthToken where
  secret : Option String
  deriving DecidableEq, Repr

/-- Equality that looks at every byte, whatever the first ones say. -/
def constantTimeEq (a b : List UInt8) : Bool :=
  if a.length ≠ b.length then false
  else (a.zip b).foldl (fun diff pair => diff ||| (pair.1 ^^^ pair.2)) 0 = 0

namespace AuthToken

/-- An empty token is none. -/
def new (token : String) : AuthToken := { secret := if token.isEmpty then none else some token }

def isConfigured (token : AuthToken) : Bool := token.secret.isSome

def permits (token : AuthToken) (headers : HeaderMap) : Bool :=
  match token.secret with
  | none => true
  | some expected =>
      match headers.header "authorization" with
      | none => false
      | some value =>
          match stripStart "Bearer ".toList value.toList with
          | none => false
          | some presented =>
              constantTimeEq (utf8Bytes (String.ofList presented)) (utf8Bytes expected)

end AuthToken

theorem or_eq_zero_iff (x y : UInt8) : x ||| y = 0 ↔ x = 0 ∧ y = 0 := by
  simp only [← UInt8.toBitVec_inj, UInt8.toBitVec_or, UInt8.toBitVec_zero, BitVec.or_eq_zero_iff]

theorem foldl_or_eq_zero_iff (pairs : List (UInt8 × UInt8)) (diff : UInt8) :
    pairs.foldl (fun diff pair => diff ||| (pair.1 ^^^ pair.2)) diff = 0 ↔
      diff = 0 ∧ ∀ pair ∈ pairs, pair.1 = pair.2 := by
  induction pairs generalizing diff with
  | nil => simp
  | cons pair rest ih =>
      rw [List.foldl_cons, ih, or_eq_zero_iff, UInt8.xor_eq_zero_iff, List.forall_mem_cons,
        and_assoc]

theorem constantTimeEq_iff {a b : List UInt8} : constantTimeEq a b = true ↔ a = b := by
  unfold constantTimeEq
  split
  · next hlen => exact ⟨nofun, fun heq => absurd (congrArg List.length heq) hlen⟩
  · next hlen =>
      rw [decide_eq_true_eq, foldl_or_eq_zero_iff, ← List.forall₂_eq_eq_eq, List.forall₂_iff_zip]
      exact ⟨fun h => ⟨not_not.mp hlen, fun hmem => h.2 _ hmem⟩,
        fun h => ⟨rfl, fun _ hmem => h.2 hmem⟩⟩

/-- A configured token is presented whole or not at all. -/
theorem AuthToken.permits_iff {token : AuthToken} {headers : HeaderMap} :
    token.permits headers = true ↔ ∀ expected, token.secret = some expected →
      headers.header "authorization" = some ("Bearer " ++ expected) := by
  unfold permits
  split
  · next hnone => simp [hnone]
  · next expected hsecret =>
      simp only [hsecret, Option.some.injEq, forall_eq']
      split
      · next hmissing => simp [hmissing]
      · next value hvalue =>
          rw [hvalue, Option.some.injEq, ← String.toList_inj, String.toList_append]
          split
          · next hother =>
              exact iff_of_false Bool.false_ne_true
                (stripStart_eq_none_iff.mp hother expected.toList)
          · next presented hstrip =>
              rw [constantTimeEq_iff, utf8Bytes_inj, stripStart_eq_some_iff.mp hstrip,
                List.append_cancel_left_eq, ← String.toList_inj, String.toList_ofList]

/-! ## Space on the disk -/

/-- What the filesystem reports. -/
structure DiskSpace where
  total : ℕ
  available : ℕ
  deriving DecidableEq, Repr

/-- The cap the store should keep to: what it has and may still claim, or what was configured.
The sum is a 64-bit word and saturates. -/
def effectiveCap (configured minFree used : ℕ) (space : DiskSpace) : ℕ :=
  let claimable := space.available - minFree
  let ceiling := min (used + claimable) (2 ^ 64 - 1)
  min configured ceiling

/-- Whether the guard is reducing the cap. -/
def isEngaged (configured effective : ℕ) : Bool := effective < configured

/-! ## The handlers -/

structure ServiceInfo where
  name : String
  patterns : ℕ
  deriving DecidableEq, Repr

/-- What the process publishes for the API, besides what it shares with the data plane. -/
structure ApiState where
  token : AuthToken
  services : List ServiceInfo
  configuredDiskBytes : ℕ
  minFreeBytes : ℕ
  /-- the port is reachable from elsewhere -/
  mutationsNeedToken : Bool
  deriving DecidableEq, Repr

structure Stats where
  objects : ℕ
  indexedBytes : ℕ
  configuredDiskBytes : ℕ
  effectiveDiskBytes : ℕ
  diskGuardEngaged : Bool
  filesystemTotalBytes : ℕ
  filesystemAvailableBytes : ℕ
  minFreeBytes : ℕ
  sliceSize : ℕ
  draining : Bool
  inflight : ℕ
  deriving DecidableEq, Repr

inductive AdminAnswer
  | text (status : ℕ) (body : String)
  | stats (value : Stats)
  | services (list : List ServiceInfo)
  | purged (objectsRemoved slicesRemoved : ℕ)
  deriving DecidableEq, Repr

namespace AdminAnswer

def status : AdminAnswer → ℕ
  | .text status _ => status
  | _ => 200

def unauthorised : AdminAnswer := .text 401 "unauthorised\n"

def starting : AdminAnswer := .text 503 "the store is still opening\n"

end AdminAnswer

/-- The atomic steps of a handler. -/
inductive AdminAct
  /-- read what has been published -/
  | late
  /-- a step on the index or the store -/
  | cache (a : Act)
  | indexLen
  | indexBytes
  | diskSpace
  | isDraining
  | inflight
  /-- fail readiness from now on -/
  | beginDrain

/-- What each step answers. -/
abbrev AdminAct.Res : AdminAct → Type
  | .late => Option ApiState
  | .cache a => a.Res
  | .indexLen => ℕ
  | .indexBytes => ℕ
  -- `none` is a filesystem that could not be asked
  | .diskSpace => Option DiskSpace
  | .isDraining => Bool
  | .inflight => ℕ
  | .beginDrain => Unit

abbrev AdminTask (α : Type) := Prog AdminAct AdminAct.Res α

/-- Perform one atomic step of a handler. -/
abbrev query (a : AdminAct) : AdminTask a.Res := Prog.perform a

/-- A task of the cache, as part of a handler. -/
def AdminTask.ofTask {α : Type} : Task α → AdminTask α
  | .ret value => .ret value
  | .act a next => .act (.cache a) fun r => ofTask (next r)

/-- What a purge is of, as decoded from the query; `start` is the prefix. -/
structure PurgeParams where
  start : Option String
  all : Bool
  deriving DecidableEq, Repr

namespace Admin

/-- Refuse a destructive request that nothing is authenticating. -/
def refuseUnauthenticatedMutation (state : ApiState) : Option AdminAnswer :=
  if state.mutationsNeedToken && !state.token.isConfigured then
    some (.text 403 ("refusing: this endpoint changes state, the admin API is not bound to " ++
      "loopback, and ADMIN_TOKEN is not set. Set ADMIN_TOKEN, or bind the admin API to " ++
      "loopback with ADMIN_BIND.\n"))
  else none

/-- What every handler begins with. -/
def authorised (headers : HeaderMap) (rest : ApiState → AdminTask AdminAnswer) :
    AdminTask AdminAnswer := do
  match ← query .late with
  | none => return .starting
  | some state =>
      if state.token.permits headers then rest state else return .unauthorised

/-- What the handlers that change something begin with. -/
def authenticated (headers : HeaderMap) (rest : ApiState → AdminTask AdminAnswer) :
    AdminTask AdminAnswer :=
  authorised headers fun state =>
    match refuseUnauthenticatedMutation state with
    | some refusal => return refusal
    | none => rest state

def stats (cfg : Config) (headers : HeaderMap) : AdminTask AdminAnswer :=
  authorised headers fun state => do
    let objects ← query .indexLen
    let indexedBytes ← query .indexBytes
    let read ← query .diskSpace
    let disk := read.getD { total := 0, available := 0 }
    let effective :=
      effectiveCap state.configuredDiskBytes state.minFreeBytes indexedBytes disk
    let draining ← query .isDraining
    let inflight ← query .inflight
    return .stats
      { objects := objects
        indexedBytes := indexedBytes
        configuredDiskBytes := state.configuredDiskBytes
        effectiveDiskBytes := effective
        diskGuardEngaged := isEngaged state.configuredDiskBytes effective
        filesystemTotalBytes := disk.total
        filesystemAvailableBytes := disk.available
        minFreeBytes := state.minFreeBytes
        sliceSize := cfg.sliceSize
        draining := draining
        inflight := inflight }

def services (headers : HeaderMap) : AdminTask AdminAnswer :=
  authorised headers fun state => return .services state.services

/-- A prefix goes before `all`, and one of the two has to be given. -/
def purge (cfg : Config) (headers : HeaderMap) (params : PurgeParams) : AdminTask AdminAnswer :=
  authenticated headers fun _ => do
    match params.start, params.all with
    | some start, _ =>
        let (objects, slices) ← .ofTask (Cachic.purge cfg start)
        return .purged objects slices
    -- every key starts with the empty text
    | none, true =>
        let (objects, slices) ← .ofTask (Cachic.purge cfg "")
        return .purged objects slices
    | none, false => return .text 400 "specify ?prefix=... or ?all=true\n"

def drain (headers : HeaderMap) : AdminTask AdminAnswer :=
  authenticated headers fun _ => do
    let _ ← query .beginDrain
    return .text 202 "draining\n"

end Admin

/-- The routes of the API. -/
inductive Endpoint
  | stats
  | services
  | purge (params : PurgeParams)
  | drain
  deriving DecidableEq, Repr

namespace Endpoint

def handler (cfg : Config) (headers : HeaderMap) : Endpoint → AdminTask AdminAnswer
  | .stats => Admin.stats cfg headers
  | .services => Admin.services headers
  | .purge params => Admin.purge cfg headers params
  | .drain => Admin.drain headers

/-- Whether the endpoint changes something. -/
def mutates : Endpoint → Bool
  | .stats => false
  | .services => false
  | .purge _ => true
  | .drain => true

end Endpoint

/-! ## What the refusals come to -/

/-- The steps that change something, or look at single objects. -/
def AdminAct.touches : AdminAct → Bool
  | .cache _ => true
  | .beginDrain => true
  | _ => false

/-- What a request has to present to change something: the token, or nothing where none is
configured and the port is confined to the machine. -/
def ApiState.Credentials (state : ApiState) (headers : HeaderMap) : Prop :=
  (∃ expected, state.token.secret = some expected ∧
    headers.header "authorization" = some ("Bearer " ++ expected)) ∨
  (state.token.secret = none ∧ state.mutationsNeedToken = false)

/-- The refusal a request meets, if any. -/
def Endpoint.refusal (state : ApiState) (headers : HeaderMap) (endpoint : Endpoint) :
    Option AdminAnswer :=
  if !state.token.permits headers then some .unauthorised
  else if endpoint.mutates then Admin.refuseUnauthenticatedMutation state
  else none

section Guarded

variable {state : ApiState} {headers : HeaderMap}

/-- A request that is not refused has credentials, if it changes something. -/
theorem ApiState.credentials_of_refusal {endpoint : Endpoint}
    (hrefusal : endpoint.refusal state headers = none) (hmutates : endpoint.mutates = true) :
    state.Credentials headers := by
  unfold Endpoint.refusal at hrefusal
  split at hrefusal
  · cases hrefusal
  · next hpermits =>
      have hpermits : state.token.permits headers = true := by simpa using hpermits
      rw [Admin.refuseUnauthenticatedMutation] at hrefusal
      split at hrefusal
      · cases hrefusal
      · next hconfined =>
          cases hsecret : state.token.secret with
          | none =>
              simp only [AuthToken.isConfigured, hsecret, Option.isSome_none, Bool.not_false,
                Bool.and_true, Bool.not_eq_true] at hconfined
              exact .inr ⟨hsecret, hconfined⟩
          | some expected =>
              exact .inl ⟨expected, hsecret, AuthToken.permits_iff.mp hpermits expected hsecret⟩

/-- What a handler does after it has read what is published: nothing to the cache and no drain
without credentials, and nothing but its refusal where the request is refused. -/
structure Endpoint.Guarded (state : ApiState) (headers : HeaderMap) (endpoint : Endpoint)
    (rest : AdminTask AdminAnswer) : Prop where
  touches : rest.All fun a => a.touches = true →
    endpoint.mutates = true ∧ state.Credentials headers
  refuses : ∀ refusal, endpoint.refusal state headers = some refusal → rest = .ret refusal

theorem Endpoint.Guarded.refused {endpoint : Endpoint} {refusal : AdminAnswer}
    (h : endpoint.refusal state headers = some refusal) :
    endpoint.Guarded state headers (.ret refusal) where
  touches := trivial
  refuses _ hrefusal := congrArg Prog.ret (Option.some.inj (h.symm.trans hrefusal))

theorem Endpoint.Guarded.served {endpoint : Endpoint} {rest : AdminTask AdminAnswer}
    (h : endpoint.refusal state headers = none) (htouches : rest.All fun a => a.touches = true →
      endpoint.mutates = true) : endpoint.Guarded state headers rest where
  touches := htouches.imp fun a hmutates htouch =>
    ⟨hmutates htouch, ApiState.credentials_of_refusal h (hmutates htouch)⟩
  refuses refusal hrefusal := by
    rw [h] at hrefusal
    cases hrefusal

/-- A handler that first reads what is published: without it the answer is 503, and with it the
rest is guarded. -/
def Endpoint.Checked (headers : HeaderMap) (endpoint : Endpoint) (handler : AdminTask AdminAnswer) :
    Prop :=
  ∃ next : Option ApiState → AdminTask AdminAnswer, handler = .act .late next ∧
    next none = .ret .starting ∧ ∀ state, endpoint.Guarded state headers (next (some state))

theorem Admin.authorised_checked {endpoint : Endpoint} {rest : ApiState → AdminTask AdminAnswer}
    (hrest : ∀ state, state.token.permits headers = true →
      endpoint.Guarded state headers (rest state)) :
    endpoint.Checked headers (authorised headers rest) := by
  refine ⟨_, Prog.perform_bind _ _, rfl, fun state => ?_⟩
  show endpoint.Guarded state headers
    (if state.token.permits headers then rest state else .ret .unauthorised)
  split
  · next hpermits => exact hrest state hpermits
  · next hrefused =>
      refine .refused ?_
      rw [Endpoint.refusal, Bool.eq_false_of_not_eq_true hrefused]
      rfl

theorem Admin.authenticated_checked {endpoint : Endpoint}
    {rest : ApiState → AdminTask AdminAnswer} (hmutates : endpoint.mutates = true) :
    endpoint.Checked headers (authenticated headers rest) := by
  refine authorised_checked fun state hpermits => ?_
  have hrefusal : endpoint.refusal state headers = refuseUnauthenticatedMutation state := by
    rw [Endpoint.refusal, hpermits, hmutates]
    rfl
  cases hrefuse : refuseUnauthenticatedMutation state with
  | some refusal => exact .refused (hrefusal.trans hrefuse)
  | none => exact .served (hrefusal.trans hrefuse) (.of_forall (fun _ _ => hmutates) _)

/-- **Every handler is checked.** -/
theorem Endpoint.handler_checked (cfg : Config) (headers : HeaderMap) (endpoint : Endpoint) :
    endpoint.Checked headers (endpoint.handler cfg headers) := by
  have hreads : ∀ {endpoint : Endpoint} {state : ApiState}, endpoint.mutates = false →
      state.token.permits headers = true → endpoint.refusal state headers = none := by
    intro endpoint state hmutates hpermits
    rw [Endpoint.refusal, hpermits, hmutates]
    rfl
  cases endpoint with
  | stats =>
      refine Admin.authorised_checked fun state hpermits => .served (hreads rfl hpermits) ?_
      exact ⟨nofun, fun _ => ⟨nofun, fun _ => ⟨nofun, fun _ => ⟨nofun, fun _ => ⟨nofun, fun _ =>
        trivial⟩⟩⟩⟩⟩
  | services =>
      exact Admin.authorised_checked fun state hpermits => .served (hreads rfl hpermits) trivial
  | purge params => exact Admin.authenticated_checked rfl
  | drain => exact Admin.authenticated_checked rfl

end Guarded

end Cachic
