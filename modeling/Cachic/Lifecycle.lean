import Cachic.Admin.Api
import Cachic.Upstream.AddressGuard

/-!
# The life of the process

`run` brings the process up stage by stage, waits for a signal, drains and ends.  The admin port
answers before the store is open: a probe of `/readyz` reads three flags one after the other, and
a request to the operator API is a program of `Cachic.Admin.Api`.  Clients come once the HTTP port
is bound.  All of them are threads of `daemon`, next to the one that is `run` itself.

Two flags are called draining.  The one of `Readiness` is set by `/drain` and by a signal, and is
what `/readyz` reports; the one of `Drain` is set by `drain` alone, and is what turns clients away
and what `/stats` reports.

The sampler, the refresh of the domain list and the port for TLS share none of this state and are
left out.  So is what comes before `run`: `main` parses the command line and the environment first,
and clap ends the process there with 2 if it cannot, or with 0 if it was asked for help or for
the version.  Exit codes are here those of a process whose command line parsed.

A stage may fail for any reason of its own (a port that is taken, a directory that cannot be
opened), so that the failures of foyer, redb and the sockets are a choice of the step.
-/

namespace Cachic

open ActionLang ThreadTeam

/-- Whether the process is ready to serve. -/
structure Readiness where
  storeOpen : Bool
  listenersBound : Bool
  draining : Bool
  deriving DecidableEq, Repr

def Readiness.new : Readiness :=
  { storeOpen := false, listenersBound := false, draining := false }

def IpAddr.isLoopback : IpAddr → Bool
  | .v4 addr => addr.isLoopback
  | .v6 addr => addr.isLoopback

/-- The settings `run` looks at on its way. -/
structure RunConfig where
  adminBind : IpAddr
  adminToken : String
  /-- whether the domain list comes from a directory -/
  domainsDir : Bool
  services : List ServiceInfo
  cacheDiskSize : ℕ
  minFreeDisk : ℕ

/-- What is published for the operator API. -/
def RunConfig.api (run : RunConfig) : ApiState where
  token := .new run.adminToken
  services := run.services
  configuredDiskBytes := run.cacheDiskSize
  minFreeBytes := run.minFreeDisk
  mutationsNeedToken := !run.adminBind.isLoopback

/-- What the threads of the process share. -/
structure Daemon where
  host : Host
  readiness : Readiness
  api : Option ApiState
  adminBound : Bool
  httpBound : Bool
  /-- the exit code of a process that has ended -/
  exited : Option ℕ

/-! ## Coming up -/

/-- Why the process ends before it is up. -/
inductive Fatal
  | config
  | unavailable
  deriving DecidableEq, Repr

def Fatal.exitCode : Fatal → ℕ
  | .config => 78
  | .unavailable => 69

/-- The stages of `run` up to the signal. -/
inductive Stage
  | prepare
  | metrics
  | bindAdmin
  | openStore
  | openIndex
  | markStoreOpen
  | loadDomains
  | resolver
  | client
  | compileRules
  | bindHttp
  | refreshClient
  | bindSni
  | markListenersBound
  | publishApi
  deriving DecidableEq, Repr

def startup : List Stage :=
  [.prepare, .metrics, .bindAdmin, .openStore, .openIndex, .markStoreOpen, .loadDomains, .resolver,
    .client, .compileRules, .bindHttp, .refreshClient, .bindSni, .markListenersBound, .publishApi]

namespace Stage

/-- What it means if the stage fails; `none` for one that cannot. -/
def fatal (run : RunConfig) : Stage → Option Fatal
  | .prepare => some .config
  | .metrics => some .unavailable
  | .bindAdmin => some .unavailable
  | .openStore => some .unavailable
  | .openIndex => some .unavailable
  | .markStoreOpen => none
  | .loadDomains => some (if run.domainsDir then .config else .unavailable)
  | .resolver => some .config
  | .client => some .unavailable
  | .compileRules => some .config
  | .bindHttp => some .unavailable
  | .refreshClient => some .unavailable
  | .bindSni => some .unavailable
  | .markListenersBound => none
  | .publishApi => none

/-- What the stage does to the shared state if it succeeds. -/
def perform (run : RunConfig) (s : Daemon) : Stage → Daemon
  | .bindAdmin => { s with adminBound := true }
  | .markStoreOpen => { s with readiness.storeOpen := true }
  | .bindHttp => { s with httpBound := true }
  | .markListenersBound => { s with readiness.listenersBound := true }
  -- the first to publish wins
  | .publishApi => { s with api := some (s.api.getD run.api) }
  | _ => s

end Stage

/-- Where `run` is. -/
inductive MainPlace
  /-- with these stages before it; with none, it awaits the signal -/
  | starting (rest : List Stage)
  /-- the signal has come -/
  | signalled
  /-- readiness has failed, and `drain` is called -/
  | draining (d : Drainer)
  | ended

/-- What decides a step. -/
inductive DaemonChoice
  | go
  /-- a stage fails -/
  | fail
  | signal
  /-- the drain's time is up -/
  | deadline
  /-- a client's connection drops -/
  | hangUp
  /-- the outside of a step on the cache -/
  | act (choice : Choice)
  /-- what the filesystem reports -/
  | disk (space : Option DiskSpace)

namespace MainPlace

def move (run : RunConfig) : MainPlace → DaemonChoice → Daemon → Option (MainPlace × Daemon)
  | .starting (stage :: rest), .go, s => some (.starting rest, stage.perform run s)
  | .starting (stage :: _), .fail, s =>
      (stage.fatal run).map fun fatal => (.ended, { s with exited := some fatal.exitCode })
  | .starting [], .signal, s => some (.signalled, s)
  | .signalled, .go, s => some (.draining .starting, { s with readiness.draining := true })
  -- whether or not work is left
  | .draining (.returned _), .go, s => some (.ended, { s with exited := some 0 })
  | .draining d, .go, s =>
      (d.move .go s.host.drain).map fun r => (.draining r.1, { s with host.drain := r.2 })
  | .draining d, .deadline, s =>
      (d.move .deadline s.host.drain).map fun r => (.draining r.1, { s with host.drain := r.2 })
  | _, _, _ => none

end MainPlace

/-! ## Probes -/

/-- What `/readyz` can say. -/
inductive Outlook
  | starting
  | ready
  | draining
  deriving DecidableEq, Repr

/-- Status and text. -/
def Outlook.response : Outlook → ℕ × String
  | .starting => (503, "starting\n")
  | .ready => (200, "ready\n")
  | .draining => (503, "draining\n")

/-- Where a probe of `/readyz` is.  `is_ready` loads one flag after the other and stops at the
first that decides. -/
inductive ProbePlace
  | asked
  /-- `draining` was not set -/
  | undrained
  /-- and `store_open` was -/
  | opened
  /-- `is_ready` said no, and `is_draining` is next -/
  | unready
  | answered (outlook : Outlook)
  deriving DecidableEq, Repr

def ProbePlace.move : ProbePlace → Readiness → Option ProbePlace
  | .asked, r => some (if r.draining then .unready else .undrained)
  | .undrained, r => some (if r.storeOpen then .opened else .unready)
  | .opened, r => some (if r.listenersBound then .answered .ready else .unready)
  | .unready, r => some (.answered (if r.draining then .draining else .starting))
  | .answered _, _ => none

/-! ## The operator API -/

/-- The lengths of the objects, added up.  The sum is a 64-bit word and saturates. -/
def ObjectIndex.totalBytes (index : ObjectIndex) : ℕ :=
  index.table.entries.foldl (fun total entry => min (total + entry.2.totalLen) (2 ^ 64 - 1)) 0

def AdminAct.exec : (a : AdminAct) → DaemonChoice → Daemon → Option (a.Res × Daemon)
  | .late, .go, s => some (s.api, s)
  | .cache a, .act choice, s =>
      (Cachic.exec a choice s.host.shared).map fun r => (r.1, { s with host.shared := r.2 })
  | .indexLen, .go, s => some (s.host.shared.index.ids.length, s)
  | .indexBytes, .go, s => some (s.host.shared.index.totalBytes, s)
  | .diskSpace, .disk space, s => some (space, s)
  | .isDraining, .go, s => some (s.host.drain.draining, s)
  | .inflight, .go, s => some (s.host.drain.inflight, s)
  | .beginDrain, .go, s => some ((), { s with readiness.draining := true })
  | _, _, _ => none

/-- Where a request to the API is. -/
inductive OperatorPlace
  | asked
  | running (rest : AdminTask AdminAnswer)

def OperatorPlace.move (cfg : Config) (headers : HeaderMap) (endpoint : Endpoint) :
    OperatorPlace → DaemonChoice → Daemon → Option (OperatorPlace × Daemon)
  | .asked, .go, s => some (.running (endpoint.handler cfg headers), s)
  | .running (.act a next), choice, s =>
      (a.exec choice s).map fun r => (.running (next r.1), r.2)
  | _, _, _ => none

/-! ## The process -/

inductive DaemonThread
  | main (place : MainPlace)
  | probe (place : ProbePlace)
  | operator (headers : HeaderMap) (endpoint : Endpoint) (place : OperatorPlace)
  | client (job : Incoming) (phase : Phase)

/-- What a client's step is told. -/
def DaemonChoice.host : DaemonChoice → Option HostChoice
  | .go => some .go
  | .hangUp => some .hangUp
  | .act choice => some (.act choice)
  | _ => none

namespace DaemonThread

def start : DaemonThread → Bool
  | .probe place => place = .asked
  | .operator _ _ .asked => true
  | .client _ .arriving => true
  | _ => false

/-- Whether the port a thread comes in at is bound. -/
def reached (s : Daemon) : DaemonThread → Bool
  | .main _ => true
  | .probe _ => s.adminBound
  | .operator _ _ _ => s.adminBound
  | .client _ _ => s.httpBound

def move (cfg : Config) (run : RunConfig) (t : DaemonThread) (choice : DaemonChoice) (s : Daemon) :
    Option (DaemonThread × Daemon) :=
  if s.exited.isSome || !t.reached s then none
  else
    match t with
    | .main place => (place.move run choice s).map fun r => (.main r.1, r.2)
    | .probe place => (place.move s.readiness).map fun next => (.probe next, s)
    | .operator headers endpoint place =>
        (place.move cfg headers endpoint choice s).map fun r =>
          (.operator headers endpoint r.1, r.2)
    | .client job phase =>
        choice.host.bind fun c =>
          (phase.move cfg job c s.host).map fun r => (.client job r.1, { s with host := r.2 })

end DaemonThread

def daemon (cfg : Config) (run : RunConfig) : Machine Daemon DaemonThread DaemonChoice where
  start := DaemonThread.start
  move := fun _ => DaemonThread.move cfg run

abbrev DaemonTeam := Team Daemon DaemonThread

/-- A process that has just been started over some state of the cache. -/
def DaemonTeam.init (shared : Shared) : DaemonTeam where
  shared :=
    { host := { shared := shared, drain := .new }
      readiness := .new
      api := none
      adminBound := false
      httpBound := false
      exited := none }
  threads := [.main (.starting startup)]

/-- What the process is, at one moment. -/
def Daemon.outlook (s : Daemon) : Outlook :=
  if s.readiness.draining then .draining
  else if s.readiness.storeOpen && s.readiness.listenersBound then .ready
  else .starting

end Cachic
