import Cachic.Lib.Team
import Cachic.Range
import Cachic.Services.Matcher
import Cachic.Sni.HelloLoop
import Cachic.Upstream.Resolver
import Mathlib.Data.BitVec

/-!
# Splicing a TLS connection

`splice` reads the ClientHello, asks the list of services whether the name in it may be
reached, resolves the name, connects to the first address that answers, replays the hello
and then copies bytes both ways.  The machine `sni` is the listener with any number of
connections at any of these points, over the counters they share and the list of services,
which is replaced now and then while connections are open.

Whatever comes from outside is a choice: what a read returns, how much of a write is taken,
what the name servers answer, which address can be connected to, when a timeout passes.  The
limit on connections decides by itself who is let in (`Cachic.Proxy.Limits`), so that is a
choice here too.
-/

namespace Cachic

open ThreadTeam

/-! ## One connection -/

/-- The text of an error of the operating system. -/
abbrev IoError := String

/-- How a splice fails. -/
inductive SpliceError
  | hello (e : SniError)
  | helloTimeout
  | notAllowListed (host : String)
  | refused (host : String) (source : ResolveError)
  | upstream (host : String) (source : IoError)
  | io (source : IoError)
  deriving DecidableEq, Repr

/-- One direction of `copy_bidirectional`: what was read and not written yet, whether the end
was read, whether that was passed on, and how much was written. -/
structure Flow where
  pending : List UInt8
  ended : Bool
  shut : Bool
  amount : ℕ
  deriving DecidableEq, Repr

def Flow.new : Flow := { pending := [], ended := false, shut := false, amount := 0 }

/-- What one direction does next. -/
inductive FlowChoice
  /-- a read; of nothing at the end -/
  | read (chunk : List UInt8)
  /-- a write of that many bytes -/
  | wrote (n : ℕ)
  /-- the end is passed on -/
  | shutdown

/-- One step of a direction, with the bytes it reads and the bytes it writes. -/
def Flow.move (f : Flow) : FlowChoice → Option (Flow × List UInt8 × List UInt8)
  | .read chunk =>
      if f.ended then none
      else if chunk.isEmpty then some ({ f with ended := true }, [], [])
      else some ({ f with pending := f.pending ++ chunk }, chunk, [])
  | .wrote n =>
      if 0 < n && n ≤ f.pending.length then
        some ({ f with pending := f.pending.drop n, amount := f.amount + n }, [], f.pending.take n)
      else none
  | .shutdown =>
      if f.ended && f.pending.isEmpty && !f.shut then some ({ f with shut := true }, [], [])
      else none

/-- Where a connection is. -/
inductive TunnelPlace
  /-- accepted by the listener, and the limit not asked yet -/
  | arriving
  /-- the limit said no -/
  | turnedAway
  /-- in the loop that reads the hello -/
  | hello (buffer : List UInt8)
  /-- has the name and is about to look it up in the list -/
  | named (buffer : List UInt8) (host : List Char)
  | resolving (buffer : List UInt8) (host : List Char)
  /-- about to connect to the first of `left` -/
  | connecting (buffer : List UInt8) (host : List Char) (left : List SocketAddr)
      (lastError : Option IoError)
  /-- connected, with `left` of the hello still to be written -/
  | replaying (buffer left : List UInt8)
  /-- between the two counters that follow the hello -/
  | replayed (buffer : List UInt8)
  | copying (buffer : List UInt8) (up down : Flow)
  /-- between the two counters that follow the copying -/
  | finishing (buffer : List UInt8) (up down : ℕ)
  /-- returned an error before the splice was established -/
  | failed (e : SpliceError)
  /-- the copying failed, after a hello of that many bytes -/
  | broken (hello : ℕ) (e : SpliceError)
  /-- returned, with that many bytes sent each way -/
  | finished (up down : ℕ)
  deriving DecidableEq

/-- What has gone over the two sockets of a connection, and whom the second leads to. -/
structure Wire where
  fromClient : List UInt8
  toOrigin : List UInt8
  fromOrigin : List UInt8
  toClient : List UInt8
  peer : Option (List Char × SocketAddr)
  deriving DecidableEq, Repr

/-- Only the client has said something. -/
def Wire.heard (fromClient : List UInt8) : Wire where
  fromClient := fromClient
  toOrigin := []
  fromOrigin := []
  toClient := []
  peer := none

structure Tunnel where
  place : TunnelPlace
  wire : Wire
  deriving DecidableEq

def Tunnel.new : Tunnel := { place := .arriving, wire := .heard [] }

/-- What decides a step of a connection. -/
inductive SpliceChoice
  | limit (granted : Bool)
  /-- a read from the client; of nothing at the end -/
  | read (chunk : List UInt8)
  | timeout
  | looked (answer : Except String (List IpAddr))
  | connected (result : Except IoError Unit)
  | wrote (n : ℕ)
  | up (choice : FlowChoice)
  | down (choice : FlowChoice)
  | fail (e : IoError)
  | go

/-! ## The counters -/

inductive SniCounter
  | accepted
  | spliced
  | noSni
  | refused
  | notAllowListed
  | refusedLimit
  | upstreamFailed
  | bytesClientToOrigin
  | bytesOriginToClient
  deriving DecidableEq, Repr

/-- 64-bit counters, all zero at first. -/
abbrev SniStats := SniCounter → BitVec 64

/-- `fetch_add` on one counter. -/
def SniStats.add (stats : SniStats) (counter : SniCounter) (n : ℕ) : SniStats :=
  stats + Pi.single counter (BitVec.ofNat 64 n)

/-! ## The listener -/

structure SniConfig where
  port : ℕ
  resolver : UpstreamResolver
  passthroughUnknownHosts : Bool

/-- What the connections share.  `past` are the lists that `matcher` has replaced. -/
structure SniHost where
  stats : SniStats
  matcher : Matcher
  past : List Matcher

namespace SniHost

def count (host : SniHost) (counter : SniCounter) (n : ℕ) : SniHost :=
  { host with stats := host.stats.add counter n }

/-- A new list is put in force. -/
def replace (host : SniHost) (matcher : Matcher) : SniHost :=
  { host with matcher := matcher, past := host.matcher :: host.past }

end SniHost

/-- The reads of the hello are of at most this many bytes. -/
def helloChunk : ℕ := 1024

/-- A step that only changes where the connection is. -/
def Tunnel.goto (t : Tunnel) (place : TunnelPlace) : Tunnel := { t with place := place }

/-- An error before the splice is established. -/
def Tunnel.fail (t : Tunnel) (e : SpliceError) : Tunnel := t.goto (.failed e)

/-- The hello has been looked at after a read. -/
def Tunnel.listen (t : Tunnel) (buffer : List UInt8) : Tunnel :=
  match afterRead buffer with
  | none => t.goto (.hello buffer)
  | some (.ok host) => t.goto (.named buffer host)
  | some (.error e) => t.fail (.hello e)

/-- One step of `splice`. -/
def Tunnel.move (cfg : SniConfig) (t : Tunnel) (choice : SpliceChoice) (s : SniHost) :
    Option (Tunnel × SniHost) :=
  match t.place, choice with
  | .arriving, .limit false => some (t.goto .turnedAway, s.count .refusedLimit 1)
  | .arriving, .limit true => some (t.goto (.hello []), s.count .accepted 1)
  | .hello buffer, .read chunk =>
      if helloChunk < chunk.length then none
      else if chunk.isEmpty then some (t.fail (.hello .notTls), s)
      else
        let wire := { t.wire with fromClient := t.wire.fromClient ++ chunk }
        some ({ t with wire := wire }.listen (buffer ++ chunk), s)
  | .hello _, .timeout => some (t.fail .helloTimeout, s)
  | .hello _, .fail e => some (t.fail (.io e), s)
  | .named buffer host, .go =>
      if !cfg.passthroughUnknownHosts && (s.matcher.serviceFor host).isNone then
        some (t.fail (.notAllowListed (String.ofList host)), s.count .notAllowListed 1)
      else some (t.goto (.resolving buffer host), s)
  | .resolving buffer host, .looked answer =>
      match cfg.resolver.resolve (String.ofList host) cfg.port answer with
      | .error source => some (t.fail (.refused (String.ofList host) source), s.count .refused 1)
      | .ok addresses => some (t.goto (.connecting buffer host addresses none), s)
  | .connecting buffer host (origin :: left) _, .connected result =>
      match result with
      | .ok () =>
          let wire := { t.wire with peer := some (host, origin) }
          some ({ place := .replaying buffer buffer, wire := wire }, s)
      | .error e => some (t.goto (.connecting buffer host left (some e)), s)
  | .connecting _ host [] lastError, .go =>
      some (t.fail (.upstream (String.ofList host) (lastError.getD "no addresses")),
        s.count .upstreamFailed 1)
  | .replaying buffer left, .wrote n =>
      if 0 < n && n ≤ left.length then
        let wire := { t.wire with toOrigin := t.wire.toOrigin ++ left.take n }
        some ({ place := .replaying buffer (left.drop n), wire := wire }, s)
      else none
  | .replaying _ _, .fail e => some (t.fail (.io e), s)
  | .replaying buffer [], .go =>
      some (t.goto (.replayed buffer), s.count .bytesClientToOrigin buffer.length)
  | .replayed buffer, .go =>
      some (t.goto (.copying buffer .new .new), s.count .spliced 1)
  | .copying buffer up down, .up choice =>
      (up.move choice).map fun r =>
        let wire := { t.wire with
          fromClient := t.wire.fromClient ++ r.2.1
          toOrigin := t.wire.toOrigin ++ r.2.2 }
        ({ place := .copying buffer r.1 down, wire := wire }, s)
  | .copying buffer up down, .down choice =>
      (down.move choice).map fun r =>
        let wire := { t.wire with
          fromOrigin := t.wire.fromOrigin ++ r.2.1
          toClient := t.wire.toClient ++ r.2.2 }
        ({ place := .copying buffer up r.1, wire := wire }, s)
  | .copying buffer _ _, .fail e => some (t.goto (.broken buffer.length (.io e)), s)
  | .copying buffer up down, .go =>
      if up.shut && down.shut then
        some (t.goto (.finishing buffer up.amount down.amount),
          s.count .bytesClientToOrigin up.amount)
      else none
  | .finishing buffer up down, .go =>
      some (t.goto (.finished (buffer.length + up) down), s.count .bytesOriginToClient down)
  | _, _ => none

/-- What one step of a connection can do. -/
inductive Tunnel.Moves (cfg : SniConfig) (s : SniHost) : Tunnel → Tunnel → SniHost → Prop
  | turnedAway {wire : Wire} :
      Moves cfg s ⟨.arriving, wire⟩ ⟨.turnedAway, wire⟩ (s.count .refusedLimit 1)
  | accepted {wire : Wire} :
      Moves cfg s ⟨.arriving, wire⟩ ⟨.hello [], wire⟩ (s.count .accepted 1)
  | listened {wire : Wire} {buffer chunk : List UInt8} :
      Moves cfg s ⟨.hello buffer, wire⟩
        (Tunnel.listen ⟨.hello buffer, { wire with fromClient := wire.fromClient ++ chunk }⟩
          (buffer ++ chunk)) s
  | unheard {wire : Wire} {buffer : List UInt8} {e : SpliceError}
      (he : e = .hello .notTls ∨ e = .helloTimeout ∨ ∃ source, e = .io source) :
      Moves cfg s ⟨.hello buffer, wire⟩ ⟨.failed e, wire⟩ s
  | notAllowListed {wire : Wire} {buffer : List UInt8} {host : List Char} :
      Moves cfg s ⟨.named buffer host, wire⟩
        ⟨.failed (.notAllowListed (String.ofList host)), wire⟩ (s.count .notAllowListed 1)
  | allowed {wire : Wire} {buffer : List UInt8} {host : List Char}
      (h : cfg.passthroughUnknownHosts = true ∨ (s.matcher.serviceFor host).isSome = true) :
      Moves cfg s ⟨.named buffer host, wire⟩ ⟨.resolving buffer host, wire⟩ s
  | refused {wire : Wire} {buffer : List UInt8} {host : List Char} {source : ResolveError} :
      Moves cfg s ⟨.resolving buffer host, wire⟩
        ⟨.failed (.refused (String.ofList host) source), wire⟩ (s.count .refused 1)
  | resolved {wire : Wire} {buffer : List UInt8} {host : List Char}
      {answer : Except String (List IpAddr)} {addresses : List SocketAddr}
      (h : cfg.resolver.resolve (String.ofList host) cfg.port answer = .ok addresses) :
      Moves cfg s ⟨.resolving buffer host, wire⟩ ⟨.connecting buffer host addresses none, wire⟩ s
  | connected {wire : Wire} {buffer : List UInt8} {host : List Char} {origin : SocketAddr}
      {left : List SocketAddr} {lastError : Option IoError} :
      Moves cfg s ⟨.connecting buffer host (origin :: left) lastError, wire⟩
        ⟨.replaying buffer buffer, { wire with peer := some (host, origin) }⟩ s
  | unreachable {wire : Wire} {buffer : List UInt8} {host : List Char} {origin : SocketAddr}
      {left : List SocketAddr} {lastError : Option IoError} {e : IoError} :
      Moves cfg s ⟨.connecting buffer host (origin :: left) lastError, wire⟩
        ⟨.connecting buffer host left (some e), wire⟩ s
  | upstream {wire : Wire} {buffer : List UInt8} {host : List Char} {lastError : Option IoError} :
      Moves cfg s ⟨.connecting buffer host [] lastError, wire⟩
        ⟨.failed (.upstream (String.ofList host) (lastError.getD "no addresses")), wire⟩
        (s.count .upstreamFailed 1)
  | wrote {wire : Wire} {buffer left : List UInt8} {n : ℕ} :
      Moves cfg s ⟨.replaying buffer left, wire⟩
        ⟨.replaying buffer (left.drop n),
          { wire with toOrigin := wire.toOrigin ++ left.take n }⟩ s
  | unwritten {wire : Wire} {buffer left : List UInt8} {e : IoError} :
      Moves cfg s ⟨.replaying buffer left, wire⟩ ⟨.failed (.io e), wire⟩ s
  | replayed {wire : Wire} {buffer : List UInt8} :
      Moves cfg s ⟨.replaying buffer [], wire⟩ ⟨.replayed buffer, wire⟩
        (s.count .bytesClientToOrigin buffer.length)
  | spliced {wire : Wire} {buffer : List UInt8} :
      Moves cfg s ⟨.replayed buffer, wire⟩ ⟨.copying buffer .new .new, wire⟩ (s.count .spliced 1)
  | up {wire : Wire} {buffer read written : List UInt8} {up up' down : Flow} {choice : FlowChoice}
      (h : up.move choice = some (up', read, written)) :
      Moves cfg s ⟨.copying buffer up down, wire⟩
        ⟨.copying buffer up' down, { wire with
          fromClient := wire.fromClient ++ read
          toOrigin := wire.toOrigin ++ written }⟩ s
  | down {wire : Wire} {buffer read written : List UInt8} {up down down' : Flow}
      {choice : FlowChoice} (h : down.move choice = some (down', read, written)) :
      Moves cfg s ⟨.copying buffer up down, wire⟩
        ⟨.copying buffer up down', { wire with
          fromOrigin := wire.fromOrigin ++ read
          toClient := wire.toClient ++ written }⟩ s
  | broken {wire : Wire} {buffer : List UInt8} {up down : Flow} {e : IoError} :
      Moves cfg s ⟨.copying buffer up down, wire⟩ ⟨.broken buffer.length (.io e), wire⟩ s
  | finishing {wire : Wire} {buffer : List UInt8} {up down : Flow} (hup : up.shut = true)
      (hdown : down.shut = true) :
      Moves cfg s ⟨.copying buffer up down, wire⟩
        ⟨.finishing buffer up.amount down.amount, wire⟩ (s.count .bytesClientToOrigin up.amount)
  | finished {wire : Wire} {buffer : List UInt8} {up down : ℕ} :
      Moves cfg s ⟨.finishing buffer up down, wire⟩ ⟨.finished (buffer.length + up) down, wire⟩
        (s.count .bytesOriginToClient down)

theorem Tunnel.moves_of_move {cfg : SniConfig} {t t' : Tunnel} {choice : SpliceChoice}
    {s s' : SniHost} (h : t.move cfg choice s = some (t', s')) : t.Moves cfg s t' s' := by
  obtain ⟨place, wire⟩ := t
  unfold Tunnel.move at h
  split at h
  case h_1 heq => cases heq; cases h; exact .turnedAway
  case h_2 heq => cases heq; cases h; exact .accepted
  case h_3 buffer chunk heq =>
    cases heq
    split at h
    · cases h
    · split at h
      · cases h
        exact .unheard (.inl rfl)
      · cases h
        exact .listened
  case h_4 heq => cases heq; cases h; exact .unheard (.inr (.inl rfl))
  case h_5 e heq => cases heq; cases h; exact .unheard (.inr (.inr ⟨e, rfl⟩))
  case h_6 buffer host heq =>
    cases heq
    split at h
    · cases h
      exact .notAllowListed
    · next hallowed =>
        cases h
        refine .allowed ?_
        cases hpass : cfg.passthroughUnknownHosts with
        | true => exact .inl rfl
        | false =>
            right
            simpa [hpass, Option.isSome_iff_ne_none] using hallowed
  case h_7 buffer host answer heq =>
    cases heq
    split at h
    · cases h
      exact .refused
    · next hresolve =>
        cases h
        exact .resolved hresolve
  case h_8 buffer host origin left lastError result heq =>
    cases heq
    split at h
    · cases h
      exact .connected
    · cases h
      exact .unreachable
  case h_9 heq => cases heq; cases h; exact .upstream
  case h_10 heq =>
    cases heq
    split at h
    · cases h
      exact .wrote
    · cases h
  case h_11 heq => cases heq; cases h; exact .unwritten
  case h_12 heq => cases heq; cases h; exact .replayed
  case h_13 heq => cases heq; cases h; exact .spliced
  case h_14 heq =>
    cases heq
    rw [Option.map_eq_some_iff] at h
    obtain ⟨⟨up', read, written⟩, hflow, heq⟩ := h
    cases heq
    exact .up hflow
  case h_15 heq =>
    cases heq
    rw [Option.map_eq_some_iff] at h
    obtain ⟨⟨down', read, written⟩, hflow, heq⟩ := h
    cases heq
    exact .down hflow
  case h_16 heq => cases heq; cases h; exact .broken
  case h_17 heq =>
    cases heq
    split at h
    · next hshut =>
        cases h
        exact .finishing (Bool.and_eq_true_iff.mp hshut).1 (Bool.and_eq_true_iff.mp hshut).2
    · cases h
  case h_18 heq => cases heq; cases h; exact .finished
  case h_19 => cases h

/-- A connection, or the task that keeps the list up to date. -/
inductive SniThread
  | tunnel (t : Tunnel)
  | refresher

inductive SniChoice
  | splice (choice : SpliceChoice)
  | replace (matcher : Matcher)

namespace SniThread

def start : SniThread → Bool
  | .tunnel t => t = .new
  | .refresher => true

def move (cfg : SniConfig) : SniThread → SniChoice → SniHost → Option (SniThread × SniHost)
  | .tunnel t, .splice choice, s => (t.move cfg choice s).map fun r => (.tunnel r.1, r.2)
  | .refresher, .replace matcher, s => some (.refresher, s.replace matcher)
  | _, _, _ => none

end SniThread

def sni (cfg : SniConfig) : Machine SniHost SniThread SniChoice where
  start := SniThread.start
  move := fun _ => SniThread.move cfg

abbrev SniTeam := Team SniHost SniThread

/-- A listener that has just been bound. -/
def SniTeam.new (matcher : Matcher) : SniTeam where
  shared := { stats := 0, matcher := matcher, past := [] }
  threads := []

end Cachic
