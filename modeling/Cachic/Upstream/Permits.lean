import Cachic.Lib.Gates
import Cachic.Orchestrator.Programs

/-!
# The permits of the upstream client

The client bounds what it asks of origins: `max_inflight` range requests at a time in all, and
for a service with a ceiling of its own no more than that.  `fetch_range` takes its service's
permit first and a global one second, holds both through its retries until the body is read,
and drops them in reverse order.  `fetch_stream` takes its service's permit only, and drops it
when the head of the answer is there.

The semaphores are gates in the sense of `Cachic.Lib.Gates`, and a fetch is a task that passes
them.  Any number of fetches interleave, any of them may be dropped where it awaits something,
and an origin may answer anything at any time or, for some theorems, not at all.
-/

namespace Cachic

open Gated ThreadTeam

/-- The limits of the client that bound how much it does at a time. -/
structure InflightLimits where
  maxInflight : ℕ
  perService : String → Option ℕ

/-- The semaphores of the client. -/
inductive PermitGate
  | service (name : String)
  | inflight
  deriving DecidableEq, Repr

/-- The service's permit comes first. -/
def PermitGate.rank : PermitGate → Fin 2
  | .service _ => ⟨0, Nat.zero_lt_two⟩
  | .inflight => ⟨1, Nat.one_lt_two⟩

/-- The permits each semaphore starts with.  A service's is made only where there is a
ceiling. -/
def InflightLimits.capacity (limits : InflightLimits) : PermitGate → ℕ
  | .service name => max ((limits.perService name).getD 0) 1
  | .inflight => limits.maxInflight

/-- One call of `fetch_range`, or of `fetch_stream` where the request has no range. -/
structure Fetch where
  service : String
  request : Request
  deriving DecidableEq, Repr

/-- The permits a call takes, in its order. -/
def Fetch.route (limits : InflightLimits) (f : Fetch) : Gated.Route PermitGate.rank where
  gates := (if (limits.perService f.service).isSome then [.service f.service] else []) ++
    if f.request.range.isSome then [.inflight] else []
  ordered := by
    split <;> split <;> simp [PermitGate.rank]

theorem Fetch.inflight_mem_route {limits : InflightLimits} {f : Fetch} :
    .inflight ∈ (f.route limits).gates ↔ f.request.range.isSome = true := by
  simp only [Fetch.route]
  split <;> split <;> simp_all

theorem Fetch.service_mem_route {limits : InflightLimits} {f : Fetch} {service : String} :
    .service service ∈ (f.route limits).gates ↔
      f.service = service ∧ (limits.perService service).isSome = true := by
  simp only [Fetch.route]
  split <;> split <;> grind

/-- How a call came to its end. -/
inductive FetchEnd
  | response (result : Except UpstreamError UpstreamResponse)
  /-- `fetch_stream` has no stream to return -/
  | noStream (e : UpstreamError)
  /-- the stream has been read to its end -/
  | streamed
  | dropped
  deriving DecidableEq, Repr

/-- A call that has no permit: before it takes one, and after it has given back all. -/
inductive FetchOutside
  /-- awaits `check_url` -/
  | checking (f : Fetch)
  /-- the stream has been returned and is being read -/
  | streaming (f : Fetch)
  | ended (f : Fetch) (how : FetchEnd)
  deriving DecidableEq, Repr

/-- A call that has permits, or is on its way to them. -/
inductive FetchInside
  /-- awaits the answer to its request, with so many retries left -/
  | sending (f : Fetch) (retries : ℕ)
  /-- awaits the body of a 206 -/
  | receiving (f : Fetch) (start stop : ℕ) (response : RawResponse)
  deriving DecidableEq, Repr

/-- What a call awaits. -/
inductive FetchChoice
  | resolved (answer : Except UpstreamError Unit)
  | reply (answer : Except TransportError RawResponse)
  /-- the body has arrived, or has failed to -/
  | body

namespace Fetch

/-- What `check_url` says to a call that has no permit yet. -/
def checked (client : ClientConfig) (limits : InflightLimits) (f : Fetch) :
    Except UpstreamError Unit → FetchOutside ⊕ (FetchInside × Gated.Route PermitGate.rank)
  | .error e =>
      .inl (.ended f (if f.request.range.isSome then .response (.error e) else .noStream e))
  | .ok () => .inr (.sending f client.retries, f.route limits)

/-- The answer to one request, or its failure. -/
def answered (client : ClientConfig) (f : Fetch) (retries : ℕ) :
    Except TransportError RawResponse → FetchInside ⊕ FetchOutside
  | .ok response =>
      match f.request.range with
      | some (start, stop) =>
          -- the declared length is judged before anything is read
          if response.status = 206 ∧
              response.declared.all fun declared => declared ≤ client.bodyLimit start stop then
            .inl (.receiving f start stop response)
          else .inr (.ended f (.response (receive client f.request.url start stop response)))
      | none =>
          match refusal f.request.url response with
          | some e => .inr (.ended f (.noStream e))
          | none => .inr (.streaming f)
  | .error source =>
      match f.request.range, retries with
      | none, _ => .inr (.ended f (.noStream (.request f.request.url source)))
      | some _, 0 => .inr (.ended f (.response (.error (.request f.request.url source))))
      | some _, retries + 1 =>
          if source.isConnect || source.isTimeout then .inl (.sending f retries)
          else .inr (.ended f (.response (.error (.request f.request.url source))))

end Fetch

/-- The steps of `fetch_range` and `fetch_stream` between their permits. -/
def fetchBehaviour (client : ClientConfig) (limits : InflightLimits) :
    Behaviour PermitGate.rank FetchOutside FetchInside FetchChoice where
  initial := fun
    | .checking _ => true
    | _ => false
  outer := fun
    | .checking f, .resolved answer => some (f.checked client limits answer)
    | .streaming f, .body => some (.inl (.ended f .streamed))
    | _, _ => none
  inner := fun
    | .sending f retries, .reply answer => some (f.answered client retries answer)
    | .receiving f start stop response, .body =>
        some (.inr (.ended f (.response (receive client f.request.url start stop response))))
    | _, _ => none
  drop := fun
    | .checking f => some (.ended f .dropped)
    | .streaming f => some (.ended f .dropped)
    | .ended _ _ => none
  abandon := fun
    | .sending f _ => .ended f .dropped
    | .receiving f _ _ _ => .ended f .dropped

/-- Where a call is. -/
abbrev FetchTask := Gated.Task PermitGate.rank FetchOutside FetchInside

abbrev FetchTeam := Team (PermitGate → Semaphore ℕ) FetchTask

abbrev FetchStep := Step FetchTask (Gated.Choice FetchChoice)

/-- Any number of calls over one client. -/
def fetches (client : ClientConfig) (limits : InflightLimits) :
    Machine (PermitGate → Semaphore ℕ) FetchTask (Gated.Choice FetchChoice) :=
  machine (fetchBehaviour client limits)

/-- A client that has just been built. -/
def FetchTeam.new (limits : InflightLimits) : FetchTeam where
  shared := fun gate => .new (limits.capacity gate)
  threads := []

/-- `available_permits` -/
def FetchTeam.availablePermits (team : FetchTeam) : ℕ := (team.shared .inflight).permits

/-- `service_permits` -/
def FetchTeam.servicePermits (limits : InflightLimits) (team : FetchTeam) (service : String) :
    Option ℕ :=
  (limits.perService service).map fun _ => (team.shared (.service service)).permits

namespace Scenario

/-- Two requests at a time, and one to `wsus`. -/
def twoAtATime : InflightLimits where
  maxInflight := 2
  perService := fun service => if service = "wsus" then some 1 else none

/-- A call of `fetch_range` for the first bytes of an object. -/
def firstBytes (service : String) : Fetch where
  service := service
  request := { url := "http://" ++ service ++ "/object", range := some (0, 3), headers := [] }

/-- A call to `wsus` passes both gates and sends its request. -/
def wsusSends : List FetchStep :=
  [.spawn (.outside (.checking (firstBytes "wsus"))), .go 0 (.own (.resolved (.ok ()))),
    .go 0 .gate, .go 0 .gate, .go 0 .gate]

/-- A second one has to wait. -/
def wsusWaits : List FetchStep :=
  [.spawn (.outside (.checking (firstBytes "wsus"))), .go 1 (.own (.resolved (.ok ()))),
    .go 1 .gate]

/-- A call to another service is answered and ends. -/
def steamEnds : List FetchStep :=
  [.spawn (.outside (.checking (firstBytes "steam"))), .go 1 (.own (.resolved (.ok ()))),
    .go 1 .gate, .go 1 .gate, .go 1 (.own (.reply (.error ⟨false, false, true, "reset"⟩))),
    .go 1 .gate, .go 1 .gate]

end Scenario

/-! ## What a step of a call can do -/

def FetchOutside.fetch : FetchOutside → Fetch
  | .checking f => f
  | .streaming f => f
  | .ended f _ => f

def FetchInside.fetch : FetchInside → Fetch
  | .sending f _ => f
  | .receiving f _ _ _ => f

section Steps

variable {client : ClientConfig} {limits : InflightLimits}

variable {c : FetchChoice} {v : FetchInside} {w : FetchOutside}

/-- A call enters where its URL has been checked. -/
theorem fetchBehaviour_enter {route : Gated.Route PermitGate.rank}
    (h : (fetchBehaviour client limits).outer w c = some (.inr (v, route))) :
    ∃ f, w = .checking f ∧ c = .resolved (.ok ()) ∧ v = .sending f client.retries ∧
      route = f.route limits := by
  cases w with
  | checking f =>
      cases c with
      | resolved answer =>
          cases answer with
          | error e => cases h
          | ok _ => cases h; exact ⟨f, rfl, rfl, rfl, rfl⟩
      | _ => cases h
  | streaming | ended => cases c <;> cases h

/-- A step outside that does not enter. -/
theorem fetchBehaviour_outer {w' : FetchOutside}
    (h : (fetchBehaviour client limits).outer w c = some (.inl w')) :
    (∃ f e, w = .checking f ∧ c = .resolved (.error e) ∧ w' = .ended f
        (if f.request.range.isSome then .response (.error e) else .noStream e)) ∨
      ∃ f, w = .streaming f ∧ c = .body ∧ w' = .ended f .streamed := by
  cases w with
  | checking f =>
      cases c with
      | resolved answer =>
          cases answer with
          | error e => cases h; exact .inl ⟨f, e, rfl, rfl, rfl⟩
          | ok _ => cases h
      | _ => cases h
  | streaming f =>
      cases c with
      | body => cases h; exact .inr ⟨f, rfl, rfl, rfl⟩
      | _ => cases h
  | ended f how => cases c <;> cases h

/-- A request is sent again only while retries are left. -/
theorem Fetch.answered_again {f : Fetch} {retries : ℕ}
    {answer : Except TransportError RawResponse} (h : f.answered client retries answer = .inl v) :
    (∃ source left, answer = .error source ∧ retries = left + 1 ∧ v = .sending f left ∧
        (source.isConnect || source.isTimeout) = true ∧ f.request.range.isSome = true) ∨
      ∃ start stop response, answer = .ok response ∧ f.request.range = some (start, stop) ∧
        v = .receiving f start stop response := by
  unfold Fetch.answered at h
  cases answer with
  | ok response =>
      dsimp only at h
      split at h
      · next start stop hrange =>
          split at h
          · cases h
            exact .inr ⟨start, stop, response, rfl, hrange, rfl⟩
          · cases h
      · split at h <;> cases h
  | error source =>
      dsimp only at h
      split at h
      · cases h
      · cases h
      · next range left hrange =>
          split at h
          · next htransient =>
              cases h
              exact .inl ⟨source, left, rfl, rfl, rfl, htransient, by rw [hrange]; rfl⟩
          · cases h

/-- What a call ends in is about that call. -/
theorem Fetch.answered_fetch {f : Fetch} {retries : ℕ}
    {answer : Except TransportError RawResponse} (h : f.answered client retries answer = .inr w) :
    w.fetch = f := by
  unfold Fetch.answered at h
  grind [FetchOutside.fetch]

theorem fetchBehaviour_inner {next : FetchInside ⊕ FetchOutside}
    (h : (fetchBehaviour client limits).inner v c = some next) :
    (∃ f retries answer, v = .sending f retries ∧ c = .reply answer ∧
        next = f.answered client retries answer) ∨
      ∃ f start stop response, v = .receiving f start stop response ∧ c = .body ∧
        next = .inr (.ended f (.response (receive client f.request.url start stop response))) := by
  cases v with
  | sending f retries =>
      cases c with
      | reply answer => cases h; exact .inl ⟨f, retries, answer, rfl, rfl, rfl⟩
      | _ => cases h
  | receiving f start stop response =>
      cases c with
      | body => cases h; exact .inr ⟨f, start, stop, response, rfl, rfl, rfl⟩
      | _ => cases h

/-- A call stays the same call. -/
theorem fetchBehaviour_fetch {next : FetchInside ⊕ FetchOutside}
    (h : (fetchBehaviour client limits).inner v c = some next) :
    next.elim FetchInside.fetch FetchOutside.fetch = v.fetch := by
  rcases fetchBehaviour_inner h with ⟨f, retries, answer, rfl, -, rfl⟩ |
    ⟨f, start, stop, response, rfl, -, rfl⟩
  · cases hnext : f.answered client retries answer with
    | inl v' =>
        rcases Fetch.answered_again hnext with ⟨_, _, _, _, rfl, _⟩ | ⟨_, _, _, _, _, rfl⟩ <;> rfl
    | inr w => exact Fetch.answered_fetch hnext
  · rfl

end Steps

/-! ## Which permits a call has -/

/-- The gates a call is passing are those of its own route. -/
def FetchTask.Routed (limits : InflightLimits) : FetchTask → Prop
  | .outside _ => True
  | .entering v route _ => route = v.fetch.route limits
  | .queued v route _ => route = v.fetch.route limits
  | .inside v route => route = v.fetch.route limits
  | .leaving w route _ => route = w.fetch.route limits

/-- A call that has sent a range request and is not done with the answer. -/
def FetchTask.isRangeRequest : FetchTask → Bool
  | .inside v _ => v.fetch.request.range.isSome
  | _ => false

/-- A call to a service that has sent a request and is not done with the answer or its
head. -/
def FetchTask.isRequestOf (service : String) : FetchTask → Bool
  | .inside v _ => v.fetch.service = service
  | _ => false

section Routed

variable {client : ClientConfig} {limits : InflightLimits}

theorem FetchTask.Routed.move {tid : ℕ} {choice : Gated.Choice FetchChoice}
    {s s' : PermitGate → Semaphore ℕ} {t t' : FetchTask}
    (h : Moves (fetchBehaviour client limits) tid s choice t t' s') (ht : t.Routed limits) :
    t'.Routed limits := by
  cases h with
  | outer _ | drop _ | leave => trivial
  | enter hout =>
      obtain ⟨f, -, -, rfl, rfl⟩ := fetchBehaviour_enter hout
      rfl
  | arrive hplace _ => rcases hplace with rfl | rfl <;> exact ht
  | @inner v v' route c hinner =>
      have hsame : v'.fetch = v.fetch := fetchBehaviour_fetch hinner
      exact ht.trans (by rw [hsame])
  | @finish v w route c hinner =>
      have hsame : w.fetch = v.fetch := fetchBehaviour_fetch hinner
      exact ht.trans (by rw [hsame])
  | @abandon v route passed gate hgate =>
      cases v <;> exact ht
  | @abandonInside v route =>
      cases v <;> exact ht
  | pass _ _ | queue _ _ | collect _ _ | giveBack _ | nothingBack _ => exact ht

theorem routed_modular :
    (fetches client limits).Modular (fun _ => True) fun _ _ t => t.Routed limits where
  start := by
    intro s tid t _ hstart
    cases t with
    | outside w => trivial
    | _ => cases hstart
  own := fun _ ht hmove => ⟨trivial, ht.move (moves_of_move hmove)⟩
  others := fun _ _ _ _ hu => hu

/-- What a client has come to by any run: its books are right and every call is on its own
route. -/
structure FetchTeam.Sound (limits : InflightLimits) (team : FetchTeam) : Prop where
  orderly : Orderly limits.capacity team
  routed : ∀ t ∈ team.threads, t.Routed limits

theorem FetchTeam.Sound.new (limits : InflightLimits) : (FetchTeam.new limits).Sound limits :=
  ⟨.init limits.capacity, fun t ht => by cases ht⟩

theorem FetchTeam.Sound.run {team team' : FetchTeam} {steps : List FetchStep}
    (h : team.Sound limits) (hrun : (fetches client limits).run team steps = some team') :
    team'.Sound limits := by
  refine ⟨h.orderly.run hrun, fun t ht => ?_⟩
  have hroutes : Machine.Holds (fun _ => True) (fun _ _ t => FetchTask.Routed limits t) team :=
    ⟨trivial, fun hget => h.routed _ (List.mem_of_getElem? hget)⟩
  obtain ⟨tid, htid⟩ := List.getElem?_of_mem ht
  exact (routed_modular.run hroutes hrun).thread htid

/-- A range request has a global permit. -/
theorem FetchTask.Routed.holds_inflight {t : FetchTask} (ht : t.Routed limits)
    (h : t.isRangeRequest = true) : t.holds .inflight = true := by
  cases t with
  | inside v route =>
      obtain rfl : route = v.fetch.route limits := ht
      simp only [Gated.Task.holds, Gated.Route.has_length, decide_eq_true_eq]
      exact Fetch.inflight_mem_route.mpr h
  | _ => cases h

/-- A request to a service with a ceiling has a permit of the service. -/
theorem FetchTask.Routed.holds_service {t : FetchTask} {service : String} (ht : t.Routed limits)
    (hlimit : (limits.perService service).isSome = true) (h : t.isRequestOf service = true) :
    t.holds (.service service) = true := by
  cases t with
  | inside v route =>
      obtain rfl : route = v.fetch.route limits := ht
      simp only [Gated.Task.holds, Gated.Route.has_length, decide_eq_true_eq]
      exact Fetch.service_mem_route.mpr ⟨of_decide_eq_true h, hlimit⟩
  | _ => cases h

end Routed

/-! ## The accounts -/

/-- What the permits of a client come to. -/
structure FetchTeam.Accounted (limits : InflightLimits) (team : FetchTeam) : Prop where
  /-- no permit is lost or made up -/
  permits : ∀ gate, (team.shared gate).permits + (team.shared gate).granted.length +
    team.threads.countP (Gated.Task.holds gate) = limits.capacity gate
  requests_le : team.threads.countP FetchTask.isRangeRequest ≤ limits.maxInflight
  service_le : ∀ service limit, limits.perService service = some limit →
    team.threads.countP (FetchTask.isRequestOf service) ≤ max limit 1
  /-- a call waits only where every permit is out -/
  waiting : ∀ gate, (team.shared gate).queue ≠ [] → (team.shared gate).permits = 0
  /-- and is on the list of the one semaphore it waits for, once -/
  listed : ∀ gate, (team.shared gate).waiters.Nodup ∧ ∀ tid, tid ∈ (team.shared gate).waiters ↔
    ∃ t, team.threads[tid]? = some t ∧ t.waitsAt = some gate
  /-- the sampled levels are the permits held, and those handed to a call that has not
  noticed yet -/
  gauge : limits.maxInflight - team.availablePermits =
    team.threads.countP (Gated.Task.holds .inflight) + (team.shared .inflight).granted.length
  serviceGauge : ∀ service limit available, limits.perService service = some limit → 0 < limit →
    team.servicePermits limits service = some available →
    limit - available = team.threads.countP (Gated.Task.holds (.service service)) +
      (team.shared (.service service)).granted.length

section Accounts

variable {client : ClientConfig} {limits : InflightLimits} {team : FetchTeam}

theorem FetchTeam.Sound.accounted (h : team.Sound limits) : team.Accounted limits := by
  have hbalanced := h.orderly.balanced
  have hinflight : limits.capacity .inflight = limits.maxInflight := rfl
  have hservice : ∀ {service : String} {limit : ℕ}, limits.perService service = some limit →
      limits.capacity (.service service) = max limit 1 := by
    intro service limit hlimit
    simp [InflightLimits.capacity, hlimit]
  refine
    { permits := fun gate => (hbalanced gate).total
      requests_le := ?_
      service_le := fun service limit hlimit => ?_
      waiting := fun gate => (hbalanced gate).idle
      listed := fun gate => ⟨h.orderly.registered.shared gate, fun tid =>
        h.orderly.mem_waiters_iff⟩
      gauge := ?_
      serviceGauge := fun service limit available hlimit hpos havailable => ?_ }
  · refine le_trans ?_ (hbalanced .inflight).held_le
    exact List.countP_mono_left fun t ht hrequest => (h.routed t ht).holds_inflight hrequest
  · refine le_trans ?_ ((hbalanced (.service service)).held_le.trans_eq (hservice hlimit))
    exact List.countP_mono_left fun t ht hrequest =>
      (h.routed t ht).holds_service (by rw [hlimit]; rfl) hrequest
  · have htotal := (hbalanced .inflight).total
    rw [hinflight] at htotal
    simp only [FetchTeam.availablePermits]
    omega
  · have htotal := (hbalanced (.service service)).total
    rw [hservice hlimit] at htotal
    simp only [FetchTeam.servicePermits, hlimit, Option.map_some, Option.some.injEq] at havailable
    omega

/-- **The permits of the upstream client are exact**, in every interleaving of any number of
calls, wherever they are dropped: no more range requests than `max_inflight` and no more
requests to a service than its ceiling are open at any time. -/
theorem permits_accounted {steps : List FetchStep}
    (hrun : (fetches client limits).run (FetchTeam.new limits) steps = some team) :
    team.Accounted limits :=
  ((FetchTeam.Sound.new limits).run hrun).accounted

theorem Scenario.permits_accounted_waiting : ∃ team : FetchTeam,
    (fetches .default twoAtATime).run (FetchTeam.new twoAtATime) (wsusSends ++ wsusWaits) =
      some team ∧ (team.shared (.service "wsus")).queue = [1] ∧ team.Accounted twoAtATime :=
  ⟨_, rfl, rfl, @permits_accounted .default twoAtATime _ (wsusSends ++ wsusWaits) rfl⟩

end Accounts

/-! ## Every call comes to an end -/

/-- Every call has ended, and the client is as it was built. -/
structure FetchTeam.Finished (limits : InflightLimits) (team : FetchTeam) : Prop where
  ended : ∀ t ∈ team.threads, ∃ f how, t = .outside (.ended f how)
  free : ∀ gate, team.shared gate = .new (limits.capacity gate)

section Completion

variable {client : ClientConfig} {limits : InflightLimits} {team : FetchTeam}

/-- The steps a call without permits has left. -/
def FetchOutside.left (client : ClientConfig) : FetchOutside → ℕ
  | .checking _ => client.retries + 4
  | .streaming _ => 1
  | .ended _ _ => 0

def FetchInside.left : FetchInside → ℕ
  | .sending _ retries => retries + 3
  | .receiving _ _ _ _ => 2

theorem fetchBehaviour_bounded :
    (fetchBehaviour client limits).Bounded (FetchOutside.left client) FetchInside.left where
  outer := by
    intro w c w' h
    rcases fetchBehaviour_outer h with ⟨f, e, rfl, -, rfl⟩ | ⟨f, rfl, -, rfl⟩ <;>
      simp [FetchOutside.left]
  enter := by
    intro w c v route h
    obtain ⟨f, rfl, -, rfl, -⟩ := fetchBehaviour_enter h
    simp [FetchOutside.left, FetchInside.left]
  inner := by
    intro v c v' h
    rcases fetchBehaviour_inner h with ⟨f, retries, answer, rfl, -, hnext⟩ |
      ⟨f, _, _, _, _, _, hnext⟩
    · rcases Fetch.answered_again hnext.symm with ⟨_, _, _, rfl, rfl, _⟩ | ⟨_, _, _, _, _, rfl⟩ <;>
        simp [FetchInside.left]
    · cases hnext
  finish := by
    intro v c w h
    rcases fetchBehaviour_inner h with ⟨f, retries, answer, rfl, -, hnext⟩ |
      ⟨f, _, _, _, rfl, _, hnext⟩
    · cases w with
      | checking g =>
          unfold Fetch.answered at hnext
          grind
      | streaming g | ended g how => simp [FetchOutside.left, FetchInside.left]
    · cases hnext
      simp [FetchOutside.left]
  drop := by
    intro w w' h
    cases w <;> cases h <;> simp [FetchOutside.left]
  abandon := fun v => by cases v <;> simp [fetchBehaviour, FetchOutside.left]

/-- The steps a call has left, those at the gates included. -/
def FetchTask.left (client : ClientConfig) (t : FetchTask) : ℕ :=
  t.cost (FetchOutside.left client) FetchInside.left

/-- A call takes a bounded number of steps in all. -/
theorem left_modular : (fetches client limits).Modular (fun _ => True)
    fun _ _ t => t.left client ≤ 11 * (client.retries + 4) where
  start := by
    intro s tid t _ hstart
    cases t with
    | outside w =>
        cases w with
        | checking f =>
            simp only [FetchTask.left, Gated.Task.cost, FetchOutside.left]
            omega
        | _ => cases hstart
    | _ => cases hstart
  own := fun _ ht hmove =>
    ⟨trivial, (cost_lt_of_move fetchBehaviour_bounded hmove).le.trans ht⟩
  others := fun _ _ _ _ hu => hu

/-- Work inside does not get stuck: something comes of what it awaits. -/
theorem fetchBehaviour_inner_able (client : ClientConfig) (limits : InflightLimits)
    (v : FetchInside) :
    ∃ c, ((fetchBehaviour client limits).inner v c).isSome = true := by
  cases v with
  | sending f retries => exact ⟨.reply (.error ⟨false, false, false, ""⟩), rfl⟩
  | receiving f start stop response => exact ⟨.body, rfl⟩

/-- Outside, only a call that has ended has nothing left to do. -/
theorem fetchBehaviour_outer_able {w : FetchOutside}
    (h : ∀ c, (fetchBehaviour client limits).outer w c = none) : ∃ f how, w = .ended f how := by
  cases w with
  | checking f => cases h (.resolved (.ok ()))
  | streaming f => cases h .body
  | ended f how => exact ⟨f, how, rfl⟩

/-- **No call waits for ever.**  From any state a client can be in, whatever happens next:
without new calls there are only so many steps left, and when there is none left to take, every
call has ended and every permit is free. -/
theorem fetches_complete {before : List FetchStep} (hpos : 0 < limits.maxInflight)
    (hbefore : (fetches client limits).run (FetchTeam.new limits) before = some team)
    {steps : List FetchStep} {later : FetchTeam}
    (hrun : (fetches client limits).run team steps = some later) :
    ((∀ st ∈ steps, st.mover ≠ none) →
        steps.length ≤ team.threads.length * (11 * (client.retries + 4))) ∧
      ((∀ tid, ¬ Able (fetchBehaviour client limits) later tid) → later.Finished limits) := by
  refine ⟨fun hgo => ?_, fun hstill => ?_⟩
  · have hlength := Machine.length_add_potential_le (f := FetchTask.left client)
      (fun hmove => cost_lt_of_move fetchBehaviour_bounded hmove) hgo hrun
    have hleft : ∀ n ∈ team.threads.map (FetchTask.left client), n ≤ 11 * (client.retries + 4) := by
      intro n hn
      obtain ⟨t, ht, rfl⟩ := List.mem_map.mp hn
      obtain ⟨tid, htid⟩ := List.getElem?_of_mem ht
      exact (left_modular.run ⟨trivial, fun h => by simp [FetchTeam.new] at h⟩ hbefore).thread htid
    have hsum := List.sum_le_card_nsmul _ _ hleft
    rw [List.length_map, smul_eq_mul] at hsum
    exact (Nat.le_add_right _ _).trans (hlength.trans hsum)
  · have hsound := ((FetchTeam.Sound.new limits).run hbefore).run hrun
    have hcapacity : ∀ gate, 0 < limits.capacity gate := by
      intro gate
      cases gate with
      | service name => exact Nat.lt_of_lt_of_le Nat.zero_lt_one (le_max_right _ _)
      | inflight => exact hpos
    obtain ⟨houtside, hfree⟩ := all_outside_of_still hsound.orderly hcapacity
      (fetchBehaviour_inner_able client limits) hstill
    refine ⟨fun t ht => ?_, hfree⟩
    obtain ⟨w, rfl, hdone⟩ := houtside t ht
    obtain ⟨f, how, rfl⟩ := fetchBehaviour_outer_able hdone
    exact ⟨f, how, rfl⟩

theorem Scenario.fetches_complete_steam : ∃ team later : FetchTeam,
    (fetches .default twoAtATime).run (FetchTeam.new twoAtATime) wsusSends = some team ∧
      (fetches .default twoAtATime).run team steamEnds = some later ∧
      ((∀ tid, ¬ Able (fetchBehaviour .default twoAtATime) later tid) →
        later.Finished twoAtATime) :=
  ⟨_, _, rfl, rfl, (@fetches_complete .default twoAtATime _ wsusSends (by decide) rfl steamEnds _
    rfl).2⟩

end Completion

end Cachic
