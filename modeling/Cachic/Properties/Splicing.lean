import Cachic.Sni.Splice

/-!
# What a splice lets through

Any number of connections are open at once and the list of services is replaced under them.
In every run:

* a connection passes on exactly what it is given, in both directions, and nothing at all
  before it has been let through (`splice_transparent`);
* whoever it leads to was named by the client's own hello, is on a list that was in force
  (unless unknown hosts are let through), and has an address that the guard lets pass
  (`splice_admitted`);
* the counters add up (`splice_accounting`), except that nobody counts the connections whose
  hello named no host: `no_sni` stays at zero.
-/

namespace Cachic

open ThreadTeam ClientHello

/-! ## One direction -/

/-- A direction that has read `read` and written `written`, of which `before` bytes were not
its own. -/
structure Flow.Carries (f : Flow) (read written : List UInt8) (before : ℕ) : Prop where
  bytes : written ++ f.pending = read
  amount : written.length = before + f.amount
  shut : f.shut = true → f.ended = true ∧ f.pending = []

theorem Flow.carries_new (written : List UInt8) :
    Flow.new.Carries written written written.length where
  bytes := List.append_nil _
  amount := rfl
  shut := fun h => by cases h

variable {read written : List UInt8} {before : ℕ} {cfg : SniConfig} {s s' : SniHost}

/-- What is read is passed on, and what is written was read. -/
theorem Flow.Carries.move {f f' : Flow} {more out : List UInt8} {choice : FlowChoice}
    (h : f.Carries read written before) (hmove : f.move choice = some (f', more, out)) :
    f'.Carries (read ++ more) (written ++ out) before := by
  cases choice with
  | read chunk =>
      simp only [Flow.move] at hmove
      split at hmove
      · cases hmove
      · next hopen =>
          have hnotShut : f.shut ≠ true := fun hshut => hopen (h.shut hshut).1
          split at hmove
          · cases hmove
            rw [List.append_nil, List.append_nil]
            exact ⟨h.bytes, h.amount, fun hshut => absurd hshut hnotShut⟩
          · cases hmove
            rw [List.append_nil]
            refine ⟨?_, h.amount, fun hshut => absurd hshut hnotShut⟩
            rw [← h.bytes, List.append_assoc]
  | wrote n =>
      simp only [Flow.move] at hmove
      split at hmove
      · next hn =>
          simp only [Bool.and_eq_true, decide_eq_true_eq] at hn
          cases hmove
          rw [List.append_nil]
          refine ⟨?_, ?_, fun hshut => ?_⟩
          · rw [List.append_assoc, List.take_append_drop, h.bytes]
          · rw [List.length_append, List.length_take, h.amount]
            dsimp only
            omega
          · -- nothing is left to write once the end was passed on
            have hnil := (h.shut hshut).2
            rw [hnil, List.length_nil] at hn
            omega
      · cases hmove
  | shutdown =>
      simp only [Flow.move] at hmove
      split at hmove
      · next hdone =>
          simp only [Bool.and_eq_true, List.isEmpty_iff] at hdone
          cases hmove
          rw [List.append_nil, List.append_nil]
          exact ⟨h.bytes, h.amount, fun _ => hdone.1⟩
      · cases hmove

theorem Flow.Carries.front {f : Flow} (h : f.Carries read written before) :
    written <+: read := ⟨f.pending, h.bytes⟩

theorem Flow.Carries.all {f : Flow} (h : f.Carries read written before) (hshut : f.shut = true) :
    written = read := by
  rw [← h.bytes, (h.shut hshut).2, List.append_nil]

/-! ## One connection -/

/-- A hello that gave a host fits the buffer and names it. -/
theorem of_afterRead_ok {buffer : List UInt8} {host : List Char}
    (h : afterRead buffer = some (.ok host)) :
    buffer.length ≤ maxClientHello ∧ serverName buffer = some host := by
  generalize houtcome : (Except.ok host : Except SniError (List Char)) = outcome at h
  cases decides_of_afterRead h with
  | notTls | tooLarge => cases houtcome
  | complete htls hsmall hneeded hle =>
      refine ⟨hsmall, ?_⟩
      unfold parsed at houtcome
      split at houtcome
      · next hname =>
          cases houtcome
          exact hname
      · cases houtcome

section Sound

variable {cfg : SniConfig} {s s' : SniHost} {t t' : Tunnel}

/-- The host may be reached: a list that is or was in force has it. -/
def Admitted (cfg : SniConfig) (s : SniHost) (host : List Char) : Prop :=
  cfg.passthroughUnknownHosts = true ∨
    ∃ m ∈ s.matcher :: s.past, (m.serviceFor host).isSome = true

theorem Admitted.mono {host : List Char} (h : Admitted cfg s host)
    (hlists : s.matcher :: s.past ⊆ s'.matcher :: s'.past) : Admitted cfg s' host := by
  refine h.imp_right ?_
  rintro ⟨m, hm, hhas⟩
  exact ⟨m, hlists hm, hhas⟩

/-- An address a splice may connect to. -/
def Dialable (cfg : SniConfig) (a : SocketAddr) : Prop :=
  checkAddr a.ip cfg.resolver.allowPrivate = .ok () ∧ a.port = cfg.port

/-- A connection that has been let through: its hello names the host, the host may be
reached, and the address may be connected to. -/
structure Through (cfg : SniConfig) (s : SniHost) (buffer : List UInt8) (wire : Wire)
    (host : List Char) (origin : SocketAddr) : Prop where
  peer : wire.peer = some (host, origin)
  named : afterRead buffer = some (.ok host)
  heard : buffer <+: wire.fromClient
  admitted : Admitted cfg s host
  dialable : Dialable cfg origin

/-- What holds of a connection at each place. -/
def Tunnel.Sound (cfg : SniConfig) (s : SniHost) (t : Tunnel) : Prop :=
  match t.place with
  | .arriving => t.wire = .heard []
  | .turnedAway => t.wire = .heard []
  | .hello buffer => t.wire = .heard buffer
  | .named buffer host => t.wire = .heard buffer ∧ afterRead buffer = some (.ok host)
  | .resolving buffer host =>
      t.wire = .heard buffer ∧ afterRead buffer = some (.ok host) ∧ Admitted cfg s host
  | .connecting buffer host left _ =>
      t.wire = .heard buffer ∧ afterRead buffer = some (.ok host) ∧ Admitted cfg s host ∧
        ∀ a ∈ left, Dialable cfg a
  | .replaying buffer left =>
      (∃ host origin, Through cfg s buffer t.wire host origin) ∧ t.wire.fromClient = buffer ∧
        t.wire.toOrigin ++ left = buffer ∧ t.wire.fromOrigin = [] ∧ t.wire.toClient = []
  | .replayed buffer =>
      (∃ host origin, Through cfg s buffer t.wire host origin) ∧ t.wire.fromClient = buffer ∧
        t.wire.toOrigin = buffer ∧ t.wire.fromOrigin = [] ∧ t.wire.toClient = []
  | .copying buffer up down =>
      (∃ host origin, Through cfg s buffer t.wire host origin) ∧
        up.Carries t.wire.fromClient t.wire.toOrigin buffer.length ∧
        down.Carries t.wire.fromOrigin t.wire.toClient 0
  | .finishing buffer up down =>
      (∃ host origin, Through cfg s buffer t.wire host origin) ∧
        t.wire.toOrigin = t.wire.fromClient ∧ t.wire.toClient = t.wire.fromOrigin ∧
        t.wire.toOrigin.length = buffer.length + up ∧ t.wire.toClient.length = down
  | .failed _ =>
      (t.wire = .heard t.wire.fromClient ∨
        ∃ buffer host origin, Through cfg s buffer t.wire host origin) ∧
        t.wire.toOrigin <+: t.wire.fromClient ∧ t.wire.fromOrigin = [] ∧ t.wire.toClient = []
  | .broken hello _ =>
      (∃ buffer host origin, Through cfg s buffer t.wire host origin ∧ buffer.length = hello) ∧
        t.wire.toOrigin <+: t.wire.fromClient ∧ t.wire.toClient <+: t.wire.fromOrigin
  | .finished up down =>
      (∃ buffer host origin, Through cfg s buffer t.wire host origin) ∧
        t.wire.toOrigin = t.wire.fromClient ∧ t.wire.toClient = t.wire.fromOrigin ∧
        t.wire.toOrigin.length = up ∧ t.wire.toClient.length = down

theorem Through.mono {buffer : List UInt8} {wire : Wire} {host : List Char} {origin : SocketAddr}
    (h : Through cfg s buffer wire host origin)
    (hlists : s.matcher :: s.past ⊆ s'.matcher :: s'.past) :
    Through cfg s' buffer wire host origin :=
  { h with admitted := h.admitted.mono hlists }

/-- A list that is replaced takes nothing back. -/
theorem Tunnel.Sound.mono (h : t.Sound cfg s)
    (hlists : s.matcher :: s.past ⊆ s'.matcher :: s'.past) : t.Sound cfg s' := by
  unfold Tunnel.Sound at h ⊢
  split at h
  case h_1 | h_2 | h_3 | h_4 => exact h
  case h_5 => exact ⟨h.1, h.2.1, h.2.2.mono hlists⟩
  case h_6 => exact ⟨h.1, h.2.1, h.2.2.1.mono hlists, h.2.2.2⟩
  case h_7 | h_8 | h_9 | h_10 =>
    obtain ⟨⟨host, origin, hthrough⟩, hrest⟩ := h
    exact ⟨⟨host, origin, hthrough.mono hlists⟩, hrest⟩
  case h_11 =>
    refine ⟨h.1.imp_right ?_, h.2⟩
    rintro ⟨buffer, host, origin, hthrough⟩
    exact ⟨buffer, host, origin, hthrough.mono hlists⟩
  case h_12 =>
    obtain ⟨⟨buffer, host, origin, hthrough, hlen⟩, hrest⟩ := h
    exact ⟨⟨buffer, host, origin, hthrough.mono hlists, hlen⟩, hrest⟩
  case h_13 =>
    obtain ⟨⟨buffer, host, origin, hthrough⟩, hrest⟩ := h
    exact ⟨⟨buffer, host, origin, hthrough.mono hlists⟩, hrest⟩

/-- A connection that fails before it has been let through has passed on nothing. -/
theorem Tunnel.sound_failed {e : SpliceError} {buffer : List UInt8} :
    Tunnel.Sound cfg s ⟨.failed e, .heard buffer⟩ :=
  ⟨.inl rfl, List.nil_prefix, rfl, rfl⟩

/-- The lists a step of a connection leaves. -/
theorem Tunnel.Moves.lists (h : t.Moves cfg s t' s') :
    s'.matcher :: s'.past = s.matcher :: s.past := by
  cases h <;> rfl

/-- **One step of a connection** keeps what holds of it. -/
theorem Tunnel.Moves.sound (h : t.Moves cfg s t' s') (ht : t.Sound cfg s) : t'.Sound cfg s := by
  cases h with
  | turnedAway => exact ht
  | accepted => exact ht
  | @listened wire buffer chunk =>
      have hwire : wire = .heard buffer := ht
      subst hwire
      have hmore : ({ Wire.heard buffer with
          fromClient := (Wire.heard buffer).fromClient ++ chunk } : Wire) =
          .heard (buffer ++ chunk) := rfl
      rw [hmore, Tunnel.listen]
      split
      · rfl
      · next host hread => exact ⟨rfl, hread⟩
      · exact Tunnel.sound_failed
  | @unheard wire buffer e he =>
      have hwire : wire = .heard buffer := ht
      subst hwire
      exact Tunnel.sound_failed
  | notAllowListed =>
      obtain ⟨rfl, -⟩ := ht
      exact Tunnel.sound_failed
  | allowed hallowed =>
      refine ⟨ht.1, ht.2, hallowed.imp_right fun hhas => ?_⟩
      exact ⟨s.matcher, List.mem_cons_self, hhas⟩
  | refused =>
      obtain ⟨rfl, -⟩ := ht
      exact Tunnel.sound_failed
  | resolved hresolve =>
      refine ⟨ht.1, ht.2.1, ht.2.2, fun a ha => ?_⟩
      exact (UpstreamResolver.passed_of_resolve hresolve a ha).2
  | @connected wire buffer host origin left lastError =>
      obtain ⟨hwire, hnamed, hadmitted, hleft⟩ := ht
      dsimp only at hwire
      subst hwire
      refine ⟨⟨host, origin, rfl, hnamed, List.prefix_refl _, hadmitted, ?_⟩, rfl, rfl, rfl, rfl⟩
      exact hleft origin List.mem_cons_self
  | unreachable =>
      exact ⟨ht.1, ht.2.1, ht.2.2.1, fun a ha => ht.2.2.2 a (List.mem_cons_of_mem _ ha)⟩
  | upstream =>
      obtain ⟨rfl, -⟩ := ht
      exact Tunnel.sound_failed
  | wrote =>
      obtain ⟨⟨host, origin, hthrough⟩, hclient, hbytes, hrest⟩ := ht
      refine ⟨⟨host, origin, { hthrough with }⟩, hclient, ?_, hrest⟩
      dsimp only at hbytes ⊢
      rw [List.append_assoc, List.take_append_drop, hbytes]
  | unwritten =>
      obtain ⟨⟨host, origin, hthrough⟩, hclient, hbytes, hrest⟩ := ht
      refine ⟨.inr ⟨_, host, origin, hthrough⟩, ?_, hrest⟩
      rw [hclient]
      exact ⟨_, hbytes⟩
  | replayed =>
      obtain ⟨hthrough, hclient, hbytes, hrest⟩ := ht
      rw [List.append_nil] at hbytes
      exact ⟨hthrough, hclient, hbytes, hrest⟩
  | @spliced wire buffer =>
      obtain ⟨hthrough, hclient, hbytes, horigin, hback⟩ := ht
      dsimp only at hclient hbytes horigin hback
      refine ⟨hthrough, ?_, ?_⟩
      · dsimp only
        rw [hclient, hbytes]
        exact Flow.carries_new buffer
      · dsimp only
        rw [horigin, hback]
        exact Flow.carries_new []
  | @up wire buffer read written up up' down choice hmove =>
      obtain ⟨⟨host, origin, hthrough⟩, hup, hdown⟩ := ht
      have hheard := hthrough.heard.trans (List.prefix_append _ read)
      exact ⟨⟨host, origin, { hthrough with heard := hheard }⟩, hup.move hmove, hdown⟩
  | @down wire buffer read written up down down' choice hmove =>
      obtain ⟨⟨host, origin, hthrough⟩, hup, hdown⟩ := ht
      exact ⟨⟨host, origin, { hthrough with }⟩, hup, hdown.move hmove⟩
  | @broken wire buffer up down e =>
      obtain ⟨⟨host, origin, hthrough⟩, hup, hdown⟩ := ht
      exact ⟨⟨buffer, host, origin, hthrough, rfl⟩, hup.front, hdown.front⟩
  | finishing hup hdown =>
      obtain ⟨hthrough, hcarriesUp, hcarriesDown⟩ := ht
      refine ⟨hthrough, hcarriesUp.all hup, hcarriesDown.all hdown, hcarriesUp.amount, ?_⟩
      exact hcarriesDown.amount.trans (Nat.zero_add _)
  | @finished wire buffer up down =>
      obtain ⟨⟨host, origin, hthrough⟩, hrest⟩ := ht
      exact ⟨⟨buffer, host, origin, hthrough⟩, hrest⟩

end Sound

/-! ## All of them -/

/-- What holds of a thread of the listener. -/
def SniThread.Sound (cfg : SniConfig) (s : SniHost) : SniThread → Prop
  | .tunnel t => t.Sound cfg s
  | .refresher => True

/-- What a step of the listener is. -/
theorem SniThread.move_cases {t t' : SniThread} {choice : SniChoice}
    (h : t.move cfg choice s = some (t', s')) :
    (∃ c c', t = .tunnel c ∧ t' = .tunnel c' ∧ c.Moves cfg s c' s') ∨
      t = .refresher ∧ t' = .refresher ∧ ∃ matcher, s' = s.replace matcher := by
  unfold SniThread.move at h
  split at h
  · rw [Option.map_eq_some_iff] at h
    obtain ⟨⟨c', s''⟩, hmove, heq⟩ := h
    cases heq
    exact .inl ⟨_, c', rfl, rfl, Tunnel.moves_of_move hmove⟩
  · cases h
    exact .inr ⟨rfl, rfl, _, rfl⟩
  · cases h

theorem SniThread.lists_of_move {t t' : SniThread} {choice : SniChoice}
    (h : t.move cfg choice s = some (t', s')) :
    s.matcher :: s.past ⊆ s'.matcher :: s'.past := by
  rcases SniThread.move_cases h with ⟨c, c', -, -, hmoves⟩ | ⟨-, -, matcher, rfl⟩
  · rw [hmoves.lists]
    exact List.Subset.refl _
  · exact List.subset_cons_self _ _

theorem sound_modular (cfg : SniConfig) :
    (sni cfg).Modular (fun _ => True) fun s _ t => t.Sound cfg s where
  start := by
    intro s _ t _ hstart
    rcases t with t | _
    · obtain rfl : t = .new := by simpa [sni, SniThread.start] using hstart
      rfl
    · trivial
  own := by
    intro s s' _ t t' choice _ ht hmove
    refine ⟨trivial, ?_⟩
    have hlists := SniThread.lists_of_move hmove
    rcases SniThread.move_cases hmove with ⟨c, c', rfl, rfl, hmoves⟩ | ⟨-, rfl, -⟩
    · exact (hmoves.sound ht).mono hlists
    · trivial
  others := by
    intro s s' _ t t' choice _ u _ _ hmove _ hu
    rcases u with u | _
    · exact Tunnel.Sound.mono hu (SniThread.lists_of_move hmove)
    · trivial

section Runs

variable {cfg : SniConfig} {s : SniHost} {matcher : Matcher}
  {steps : List (Step SniThread SniChoice)} {team : SniTeam} {t : Tunnel}

theorem Tunnel.sound_of_run (hrun : (sni cfg).run (SniTeam.new matcher) steps = some team)
    (ht : .tunnel t ∈ team.threads) : t.Sound cfg team.shared := by
  have hnobody : Machine.Holds (fun _ => True) (fun s _ t => SniThread.Sound cfg s t)
      (SniTeam.new matcher) := ⟨trivial, fun h => by simp [SniTeam.new] at h⟩
  obtain ⟨tid, htid⟩ := List.getElem?_of_mem ht
  exact ((sound_modular cfg).run hnobody hrun).thread htid

/-- A connection has only listened, or has been let through. -/
theorem Tunnel.Sound.reached (h : t.Sound cfg s) :
    t.wire = .heard t.wire.fromClient ∨
      ∃ buffer host origin, Through cfg s buffer t.wire host origin := by
  have hheard : ∀ {buffer : List UInt8}, t.wire = .heard buffer →
      t.wire = .heard t.wire.fromClient := by
    intro buffer hwire
    rw [hwire]
    rfl
  unfold Tunnel.Sound at h
  split at h
  case h_1 | h_2 | h_3 => exact .inl (hheard h)
  case h_4 | h_5 | h_6 => exact .inl (hheard h.1)
  case h_7 | h_8 | h_9 | h_10 =>
    obtain ⟨⟨host, origin, hthrough⟩, -⟩ := h
    exact .inr ⟨_, host, origin, hthrough⟩
  case h_11 => exact h.1
  case h_12 =>
    obtain ⟨⟨buffer, host, origin, hthrough, -⟩, -⟩ := h
    exact .inr ⟨buffer, host, origin, hthrough⟩
  case h_13 => exact .inr h.1

/-- Both sides have the first of what the other sent. -/
theorem Tunnel.Sound.fronts (h : t.Sound cfg s) :
    t.wire.toOrigin <+: t.wire.fromClient ∧ t.wire.toClient <+: t.wire.fromOrigin := by
  have hheard : ∀ {buffer : List UInt8}, t.wire = .heard buffer →
      t.wire.toOrigin <+: t.wire.fromClient ∧ t.wire.toClient <+: t.wire.fromOrigin := by
    intro buffer hwire
    rw [hwire]
    exact ⟨List.nil_prefix, List.nil_prefix⟩
  unfold Tunnel.Sound at h
  split at h
  case h_1 | h_2 | h_3 => exact hheard h
  case h_4 | h_5 | h_6 => exact hheard h.1
  case h_7 =>
    obtain ⟨-, hclient, hbytes, -, hback⟩ := h
    exact ⟨hclient ▸ ⟨_, hbytes⟩, hback ▸ List.nil_prefix⟩
  case h_8 =>
    obtain ⟨-, hclient, hbytes, -, hback⟩ := h
    exact ⟨by rw [hclient, hbytes], hback ▸ List.nil_prefix⟩
  case h_9 => exact ⟨h.2.1.front, h.2.2.front⟩
  case h_10 | h_13 => exact ⟨by rw [h.2.1], by rw [h.2.2.1]⟩
  case h_11 => exact ⟨h.2.1, h.2.2.2 ▸ List.nil_prefix⟩
  case h_12 => exact h.2

/-- **A splice passes on what it is given, and nothing else.**  In every run: the origin has
the first of the client's bytes and the client the first of the origin's, in order and none
changed; before there is an origin nothing has been passed on; and when the splice has
returned, both have everything. -/
theorem splice_transparent (hrun : (sni cfg).run (SniTeam.new matcher) steps = some team)
    (ht : .tunnel t ∈ team.threads) :
    t.wire.toOrigin <+: t.wire.fromClient ∧ t.wire.toClient <+: t.wire.fromOrigin ∧
      (t.wire.peer = none → t.wire = .heard t.wire.fromClient) ∧
      ∀ up down, t.place = .finished up down →
        t.wire.toOrigin = t.wire.fromClient ∧ t.wire.toClient = t.wire.fromOrigin := by
  have hsound := Tunnel.sound_of_run hrun ht
  refine ⟨hsound.fronts.1, hsound.fronts.2, fun hnone => ?_, fun up down hplace => ?_⟩
  · rcases hsound.reached with hheard | ⟨buffer, host, origin, hthrough⟩
    · exact hheard
    · rw [hthrough.peer] at hnone
      cases hnone
  · simp only [Tunnel.Sound, hplace] at hsound
    exact ⟨hsound.2.1, hsound.2.2.1⟩

/-- A hello for the host `a` arrives in two reads, the name is on the list, one of the two
addresses it has is private, and after the hello one byte goes each way. -/
def Scenario.splicedForA : List (Step SniThread SniChoice) :=
  let splice := fun choice => Step.go 0 (.splice choice)
  [.spawn (.tunnel .new), .spawn .refresher, splice (.limit true),
    splice (.read (helloForA.take 20)), splice (.read (helloForA.drop 20)), splice .go,
    .go 1 (.replace .empty), splice (.looked (.ok [.v4 ⟨10, 0, 0, 1, by decide⟩,
      .v4 ⟨8, 8, 8, 8, by decide⟩])),
    splice (.connected (.ok ())), splice (.wrote 59), splice .go, splice .go,
    splice (.up (.read [1])), splice (.down (.read [2])), splice (.up (.wrote 1)),
    splice (.down (.wrote 1)), splice (.up (.read [])), splice (.down (.read [])),
    splice (.up .shutdown), splice (.down .shutdown), splice .go, splice .go]

/-- Only names on the list are let through, on port 443. -/
def Scenario.sniConfig : SniConfig where
  port := 443
  resolver := { servers := [], allowPrivate := false, parse := fun _ => none }
  passthroughUnknownHosts := false

/-- The list that has the host `a`. -/
def Scenario.listForA : Matcher := .insert 0 { Matcher.empty with names := ["a"] } (.exact ['a'])

theorem Scenario.splicedForA_ends : ∃ team t, (sni sniConfig).run (SniTeam.new listForA)
    splicedForA = some team ∧ .tunnel t ∈ team.threads ∧ t.place = .finished 60 1 ∧
      t.wire.peer = some (['a'], ⟨.v4 ⟨8, 8, 8, 8, by decide⟩, 443⟩) := by
  have hends : ((sni sniConfig).run (SniTeam.new listForA) splicedForA).bind (fun team =>
      team.threads[0]?.bind fun
        | .tunnel t => some (t.place, t.wire.peer)
        | .refresher => none) =
      some (.finished 60 1, some (['a'], ⟨.v4 ⟨8, 8, 8, 8, by decide⟩, 443⟩)) := by
    decide +kernel
  rw [Option.bind_eq_some_iff] at hends
  obtain ⟨team, hrun, hends⟩ := hends
  rw [Option.bind_eq_some_iff] at hends
  obtain ⟨thread, hthread, hends⟩ := hends
  rcases thread with t | _
  · obtain ⟨hplace, hpeer⟩ := Prod.mk.inj (Option.some.inj hends)
    exact ⟨team, t, hrun, List.mem_of_getElem? hthread, hplace, hpeer⟩
  · cases hends

theorem Scenario.splice_transparent_forA : ∃ team t,
    (sni sniConfig).run (SniTeam.new listForA) splicedForA = some team ∧
      .tunnel t ∈ team.threads ∧ t.place = .finished 60 1 ∧
      t.wire.toOrigin = t.wire.fromClient ∧ t.wire.toClient = t.wire.fromOrigin := by
  obtain ⟨team, t, hrun, ht, hplace, -⟩ := splicedForA_ends
  exact ⟨team, t, hrun, ht, hplace, (splice_transparent hrun ht).2.2.2 60 1 hplace⟩

/-- **A splice leads only where it may.**  In every run, a connection that has reached an
origin was named it by the client's own hello; a list of services that was in force has that
name, unless unknown hosts are let through; and the address has passed the guard.  Whatever
the name servers answer, and whenever the list is replaced. -/
theorem splice_admitted (hrun : (sni cfg).run (SniTeam.new matcher) steps = some team)
    (ht : .tunnel t ∈ team.threads) {host : List Char} {origin : SocketAddr}
    (hpeer : t.wire.peer = some (host, origin)) :
    (∃ buffer, buffer <+: t.wire.fromClient ∧ buffer.length ≤ maxClientHello ∧
        serverName buffer = some host) ∧
      (cfg.passthroughUnknownHosts = true ∨
        ∃ m ∈ team.shared.matcher :: team.shared.past, (m.serviceFor host).isSome = true) ∧
      checkAddr origin.ip cfg.resolver.allowPrivate = .ok () ∧ origin.port = cfg.port := by
  have hsound := Tunnel.sound_of_run hrun ht
  rcases hsound.reached with hheard | ⟨buffer, host', origin', hthrough⟩
  · rw [hheard] at hpeer
    cases hpeer
  · obtain ⟨rfl, rfl⟩ := Prod.mk.inj (Option.some.inj (hthrough.peer.symm.trans hpeer))
    refine ⟨⟨buffer, hthrough.heard, ?_⟩, hthrough.admitted, hthrough.dialable⟩
    obtain ⟨hsmall, hname⟩ := of_afterRead_ok hthrough.named
    exact ⟨hsmall, hname⟩

/-- The list has been replaced by an empty one since. -/
theorem Scenario.splice_admitted_forA : ∃ team t,
    (sni sniConfig).run (SniTeam.new listForA) splicedForA = some team ∧
      .tunnel t ∈ team.threads ∧
      t.wire.peer = some (['a'], ⟨.v4 ⟨8, 8, 8, 8, by decide⟩, 443⟩) ∧
      (sniConfig.passthroughUnknownHosts = true ∨
        ∃ m ∈ team.shared.matcher :: team.shared.past, (m.serviceFor ['a']).isSome = true) := by
  obtain ⟨team, t, hrun, ht, -, hpeer⟩ := splicedForA_ends
  exact ⟨team, t, hrun, ht, hpeer, (splice_admitted hrun ht hpeer).2.1⟩

end Runs

/-! ## The counters -/

/-- The counter an error has, if it has one. -/
def SpliceError.counter : SpliceError → Option SniCounter
  | .notAllowListed _ => some .notAllowListed
  | .refused _ _ => some .refused
  | .upstream _ _ => some .upstreamFailed
  | _ => none

/-- What a connection has been counted as, at each place. -/
def TunnelPlace.share : TunnelPlace → SniCounter → ℕ
  | .arriving => 0
  | .turnedAway => Pi.single .refusedLimit 1
  | .replayed buffer => Pi.single .accepted 1 + Pi.single .bytesClientToOrigin buffer.length
  | .copying buffer _ _ =>
      Pi.single .accepted 1 + Pi.single .bytesClientToOrigin buffer.length + Pi.single .spliced 1
  | .finishing buffer up _ =>
      Pi.single .accepted 1 + Pi.single .bytesClientToOrigin (buffer.length + up) +
        Pi.single .spliced 1
  | .broken n _ =>
      Pi.single .accepted 1 + Pi.single .bytesClientToOrigin n + Pi.single .spliced 1
  | .finished up down =>
      Pi.single .accepted 1 + Pi.single .bytesClientToOrigin up + Pi.single .spliced 1 +
        Pi.single .bytesOriginToClient down
  | .failed e => Pi.single .accepted 1 + e.counter.elim 0 fun c => Pi.single c 1
  | _ => Pi.single .accepted 1

def SniThread.share : SniThread → SniCounter → ℕ
  | .tunnel t => t.place.share
  | .refresher => 0

/-- The numbers as they are kept in 64 bits. -/
def SniStats.ofNat (n : SniCounter → ℕ) : SniStats := fun c => BitVec.ofNat 64 (n c)

theorem SniStats.ofNat_add (m n : SniCounter → ℕ) :
    SniStats.ofNat (m + n) = SniStats.ofNat m + SniStats.ofNat n := by
  funext c
  exact BitVec.ofNat_add (m c) (n c)

theorem SniStats.add_eq (stats : SniStats) (c : SniCounter) (n : ℕ) :
    stats.add c n = stats + SniStats.ofNat (Pi.single c n) := by
  unfold SniStats.add SniStats.ofNat
  congr 1
  funext d
  by_cases hd : d = c
  · subst hd
    simp
  · simp [Pi.single_eq_of_ne hd]

/-- Each step counts what it adds to the connection's share. -/
theorem Tunnel.Moves.counted {t t' : Tunnel} (h : t.Moves cfg s t' s') :
    ∃ n, s'.stats = s.stats + SniStats.ofNat n ∧ t'.place.share = t.place.share + n := by
  have hone : ∀ {place place' : TunnelPlace} {c : SniCounter} {n : ℕ},
      place'.share = place.share + Pi.single c n →
      ∃ m, (s.count c n).stats = s.stats + SniStats.ofNat m ∧
        place'.share = place.share + m := fun hshare => ⟨_, SniStats.add_eq _ _ _, hshare⟩
  have hnone : ∀ {place place' : TunnelPlace}, place'.share = place.share →
      ∃ m, s.stats = s.stats + SniStats.ofNat m ∧ place'.share = place.share + m := by
    intro place place' hshare
    refine ⟨0, ?_, by rw [hshare, add_zero]⟩
    have hzero : SniStats.ofNat 0 = 0 := rfl
    rw [hzero, add_zero]
  cases h with
  | turnedAway | accepted => exact hone (zero_add _).symm
  | listened =>
      apply hnone
      unfold Tunnel.listen
      split <;> rfl
  | unheard he =>
      apply hnone
      rcases he with rfl | rfl | ⟨source, rfl⟩ <;> rfl
  | notAllowListed | refused | upstream => exact hone rfl
  | allowed | resolved | connected | unreachable | wrote | unwritten => exact hnone rfl
  | replayed | spliced => exact hone rfl
  | up | down | broken => exact hnone rfl
  | finishing hup hdown =>
      apply hone
      simp only [TunnelPlace.share, Pi.single_add]
      abel
  | finished => exact hone rfl

theorem sni_ledger (cfg : SniConfig) :
    (sni cfg).Ledger SniHost.stats fun t => SniStats.ofNat t.share where
  start := by
    intro t hstart
    rcases t with t | _
    · obtain rfl : t = .new := by simpa [sni, SniThread.start] using hstart
      rfl
    · rfl
  move := by
    intro tid t choice s t' s' hmove
    rcases SniThread.move_cases hmove with ⟨c, c', rfl, rfl, hmoves⟩ | ⟨rfl, rfl, matcher, rfl⟩
    · obtain ⟨n, hstats, hshare⟩ := hmoves.counted
      simp only [SniThread.share, hshare, hstats, SniStats.ofNat_add]
      abel
    · rfl

theorem SniStats.sum_ofNat (threads : List SniThread) (c : SniCounter) :
    (threads.map fun t => SniStats.ofNat t.share).sum c =
      BitVec.ofNat 64 (threads.map fun t => t.share c).sum := by
  induction threads with
  | nil => rfl
  | cons t rest ih =>
      rw [List.map_cons, List.sum_cons, Pi.add_apply, ih, List.map_cons, List.sum_cons,
        BitVec.ofNat_add]
      rfl

/-- Whether a connection was let in and is in none of the counters of an outcome: it has not
come to one yet, or it ended in its hello, in a timeout or in an error of its sockets. -/
def TunnelPlace.uncounted : TunnelPlace → Bool
  | .arriving => false
  | .turnedAway => false
  | .failed e => e.counter.isNone
  | .copying _ _ _ => false
  | .finishing _ _ _ => false
  | .broken _ _ => false
  | .finished _ _ => false
  | _ => true

def SniThread.uncounted : SniThread → Bool
  | .tunnel t => t.place.uncounted
  | .refresher => false

theorem TunnelPlace.share_accepted (place : TunnelPlace) :
    place.share .accepted = place.share .spliced + place.share .notAllowListed +
      place.share .refused + place.share .upstreamFailed + if place.uncounted then 1 else 0 := by
  cases place with
  | failed e => cases e <;> rfl
  | _ => rfl

theorem TunnelPlace.share_noSni (place : TunnelPlace) : place.share .noSni = 0 := by
  cases place with
  | failed e => cases e <;> rfl
  | _ => rfl

/-- **The counters of the listener add up.**  In every run each counter is the sum of the
connections' shares in it, up to the width of a counter; the bytes of a splice that has
returned are those that went over its sockets.  So everyone accepted is spliced, not on the
list, refused or unreachable, or in no counter at all; and `no_sni` counts nobody. -/
theorem splice_accounting {cfg : SniConfig} {matcher : Matcher}
    {steps : List (Step SniThread SniChoice)} {team : SniTeam}
    (hrun : (sni cfg).run (SniTeam.new matcher) steps = some team) :
    (∀ c, team.shared.stats c = BitVec.ofNat 64 (team.threads.map fun t => t.share c).sum) ∧
      (∀ t up down, .tunnel t ∈ team.threads → t.place = .finished up down →
        t.wire.toOrigin.length = up ∧ t.wire.toClient.length = down) ∧
      team.shared.stats .noSni = 0 ∧
      team.shared.stats .accepted = team.shared.stats .spliced +
        team.shared.stats .notAllowListed + team.shared.stats .refused +
        team.shared.stats .upstreamFailed +
        BitVec.ofNat 64 (team.threads.countP SniThread.uncounted) := by
  have hbooks : ∀ c, team.shared.stats c =
      BitVec.ofNat 64 (team.threads.map fun t => t.share c).sum := by
    intro c
    have hstart : (SniTeam.new matcher).shared.stats =
        ((SniTeam.new matcher).threads.map fun t => SniStats.ofNat t.share).sum := rfl
    rw [(sni_ledger cfg).run hstart hrun, SniStats.sum_ofNat]
  refine ⟨hbooks, fun t up down ht hplace => ?_, ?_, ?_⟩
  · have hsound := Tunnel.sound_of_run hrun ht
    simp only [Tunnel.Sound, hplace] at hsound
    exact hsound.2.2.2
  · rw [hbooks]
    have hzero : (team.threads.map fun t => t.share .noSni).sum = 0 := by
      rw [List.sum_eq_zero_iff]
      intro n hn
      obtain ⟨t, -, rfl⟩ := List.mem_map.mp hn
      rcases t with t | _
      · exact t.place.share_noSni
      · rfl
    rw [hzero]
    rfl
  · simp only [hbooks, ← BitVec.ofNat_add]
    congr 1
    induction team.threads with
    | nil => rfl
    | cons t rest ih =>
        have hone : t.share .accepted = t.share .spliced + t.share .notAllowListed +
            t.share .refused + t.share .upstreamFailed + if t.uncounted then 1 else 0 := by
          rcases t with t | _
          · exact t.place.share_accepted
          · rfl
        simp only [List.map_cons, List.sum_cons, List.countP_cons, ih, hone]
        omega

/-- Of the 60 bytes to the origin 59 are the hello. -/
theorem Scenario.splice_accounting_forA : ∃ team,
    (sni sniConfig).run (SniTeam.new listForA) splicedForA = some team ∧
      team.shared.stats .bytesClientToOrigin = 60 ∧ team.shared.stats .noSni = 0 := by
  obtain ⟨team, hrun, hstats⟩ := Machine.exists_run (sni sniConfig) (SniTeam.new listForA)
    splicedForA (fun team => team.shared.stats .bytesClientToOrigin = 60) (by decide +kernel)
  exact ⟨team, hrun, hstats, (splice_accounting hrun).2.2.1⟩

end Cachic
