import Cachic.Lifecycle

/-!
# From start to exit

What holds over whole lives of the process, whatever probes, operators and clients do meanwhile.

`Daemon.Ordered` is the order that matters: the store is open and the listeners are bound before
the API is published, the API is published before readiness can fail, and readiness fails before
a client is turned away.  Each of these is kept by a different thread, so the invariant is modular
(`daemon_modular`): `run` is at a place that says which stages are done, and nobody else undoes
them (`Daemon.Keeps`).

The accesses to the flags are taken in one order, as everywhere in this development.
-/

namespace Cachic

open ActionLang ThreadTeam

/-! ## What is never taken back -/

/-- What a step of the process may change of its standing: flags are set and never cleared, and
what is published stays. -/
structure Daemon.Grows (s s' : Daemon) : Prop where
  storeOpen : s.readiness.storeOpen = true → s'.readiness.storeOpen = true
  listenersBound : s.readiness.listenersBound = true → s'.readiness.listenersBound = true
  draining : s.readiness.draining = true → s'.readiness.draining = true
  refusing : s.host.drain.draining = true → s'.host.drain.draining = true
  api : ∀ {state : ApiState}, s.api = some state → s'.api = some state

/-- What nobody but `run` changes. -/
structure Daemon.Keeps (s s' : Daemon) : Prop where
  adminBound : s'.adminBound = s.adminBound
  httpBound : s'.httpBound = s.httpBound
  storeOpen : s'.readiness.storeOpen = s.readiness.storeOpen
  listenersBound : s'.readiness.listenersBound = s.readiness.listenersBound
  draining : s.readiness.draining = true → s'.readiness.draining = true
  refusing : s'.host.drain.draining = s.host.drain.draining
  api : s'.api = s.api
  exited : s'.exited = s.exited

namespace Daemon

variable {s s' : Daemon}

theorem Keeps.refl (s : Daemon) : s.Keeps s := ⟨rfl, rfl, rfl, rfl, id, rfl, rfl, rfl⟩

theorem Keeps.grows (h : s.Keeps s') : s.Grows s' where
  storeOpen := fun hs => h.storeOpen.trans hs
  listenersBound := fun hs => h.listenersBound.trans hs
  draining := h.draining
  refusing := fun hs => h.refusing.trans hs
  api := fun hs => h.api.trans hs

end Daemon

variable {s s' : Daemon} {run : RunConfig} {cfg : Config} {t t' : DaemonThread}
  {done rest : List Stage} {choice : DaemonChoice} {place place' : MainPlace} {tid : ℕ}

/-- A step of a handler keeps what `run` has set up; one that touches nothing changes nothing. -/
theorem AdminAct.exec_keeps {a : AdminAct} {r : a.Res} (h : a.exec choice s = some (r, s')) :
    s.Keeps s' ∧ (a.touches = false → s' = s) := by
  cases a with
  | cache b =>
      cases choice with
      | act c =>
          simp only [AdminAct.exec, Option.map_eq_some_iff, Prod.mk.injEq] at h
          obtain ⟨answer, -, -, rfl⟩ := h
          exact ⟨⟨rfl, rfl, rfl, rfl, id, rfl, rfl, rfl⟩, nofun⟩
      | _ => cases h
  | beginDrain =>
      cases choice with
      | go =>
          cases h
          exact ⟨⟨rfl, rfl, rfl, rfl, fun _ => rfl, rfl, rfl, rfl⟩, nofun⟩
      | _ => cases h
  | late | indexLen | indexBytes | isDraining | inflight =>
      cases choice with
      | go =>
          cases h
          exact ⟨.refl _, fun _ => rfl⟩
      | _ => cases h
  | diskSpace =>
      cases choice with
      | disk space =>
          cases h
          exact ⟨.refl _, fun _ => rfl⟩
      | _ => cases h

theorem Phase.draining_of_move {job : Incoming} {phase phase' : Phase} {choice : HostChoice}
    {h h' : Host} (hmove : phase.move cfg job choice h = some (phase', h')) :
    h'.drain.draining = h.drain.draining := by
  rcases Phase.work_of_move hmove with ⟨-, hdrain⟩ | hwork
  · rw [hdrain]
  · exact Work.draining_of_move hwork

theorem Stage.perform_grows (run : RunConfig) (s : Daemon) (stage : Stage) :
    s.Grows (stage.perform run s) := by
  cases stage with
  | publishApi =>
      refine ⟨id, id, id, id, fun {state} hstate => ?_⟩
      show some (s.api.getD run.api) = some state
      rw [hstate]
      rfl
  | markStoreOpen => exact ⟨fun _ => rfl, id, id, id, id⟩
  | markListenersBound => exact ⟨id, fun _ => rfl, id, id, id⟩
  | _ => exact ⟨id, id, id, id, id⟩

/-- The steps of `run`. -/
inductive MainPlace.Moves (run : RunConfig) (s : Daemon) : MainPlace → MainPlace → Daemon → Prop
  | performs {stage : Stage} {rest : List Stage} :
      Moves run s (.starting (stage :: rest)) (.starting rest) (stage.perform run s)
  | fails {stage : Stage} {rest : List Stage} {fatal : Fatal}
      (hfatal : stage.fatal run = some fatal) :
      Moves run s (.starting (stage :: rest)) .ended { s with exited := some fatal.exitCode }
  | hears : Moves run s (.starting []) .signalled s
  | fades : Moves run s .signalled (.draining .starting) { s with readiness.draining := true }
  | drains {d d' : Drainer} {choice : DrainChoice} {drain : Drain}
      (hmove : d.move choice s.host.drain = some (d', drain)) :
      Moves run s (.draining d) (.draining d') { s with host.drain := drain }
  | exits {finished : Bool} :
      Moves run s (.draining (.returned finished)) .ended { s with exited := some 0 }

theorem MainPlace.moves_of_move (h : place.move run choice s = some (place', s')) :
    place.Moves run s place' s' := by
  unfold MainPlace.move at h
  split at h
  · cases h
    exact .performs
  · rw [Option.map_eq_some_iff] at h
    obtain ⟨fatal, hfatal, heq⟩ := h
    cases heq
    exact .fails hfatal
  · cases h
    exact .hears
  · cases h
    exact .fades
  · cases h
    exact .exits
  · rw [Option.map_eq_some_iff] at h
    obtain ⟨r, hmove, heq⟩ := h
    cases heq
    exact .drains hmove
  · rw [Option.map_eq_some_iff] at h
    obtain ⟨r, hmove, heq⟩ := h
    cases heq
    exact .drains hmove
  · cases h

theorem MainPlace.Moves.grows (h : place.Moves run s place' s') : s.Grows s' := by
  cases h with
  | performs => exact Stage.perform_grows run s _
  | fades => exact ⟨id, id, fun _ => rfl, id, id⟩
  | drains hmove =>
      refine ⟨id, id, id, fun hs => ?_, id⟩
      exact DrainThread.draining_of_move (t := .drainer _) (by rw [DrainThread.move, hmove]; rfl) hs
  | fails | hears | exits => exact ⟨id, id, id, id, id⟩

/-- The steps of a probe, by what it reads. -/
inductive ProbePlace.Moves (r : Readiness) : ProbePlace → ProbePlace → Prop
  | drained (h : r.draining = true) : Moves r .asked .unready
  | undrained (h : r.draining = false) : Moves r .asked .undrained
  | opened (h : r.storeOpen = true) : Moves r .undrained .opened
  | unopened (h : r.storeOpen = false) : Moves r .undrained .unready
  | bound (h : r.listenersBound = true) : Moves r .opened (.answered .ready)
  | unbound (h : r.listenersBound = false) : Moves r .opened .unready
  | draining (h : r.draining = true) : Moves r .unready (.answered .draining)
  | starting (h : r.draining = false) : Moves r .unready (.answered .starting)

theorem ProbePlace.moves_of_move {place place' : ProbePlace} {r : Readiness}
    (h : place.move r = some place') : place.Moves r place' := by
  cases place with
  | asked =>
      cases h
      cases hread : r.draining with
      | true => exact .drained hread
      | false => exact .undrained hread
  | undrained =>
      cases h
      cases hread : r.storeOpen with
      | true => exact .opened hread
      | false => exact .unopened hread
  | opened =>
      cases h
      cases hread : r.listenersBound with
      | true => exact .bound hread
      | false => exact .unbound hread
  | unready =>
      cases h
      cases hread : r.draining with
      | true => exact .draining hread
      | false => exact .starting hread
  | answered outlook => cases h

/-- The steps of the threads, whoever moves. -/
inductive DaemonThread.Moves (cfg : Config) (run : RunConfig) (s : Daemon) :
    DaemonThread → DaemonThread → Daemon → Prop
  | main {place place' : MainPlace} {s' : Daemon} (h : place.Moves run s place' s') :
      Moves cfg run s (.main place) (.main place') s'
  | probe {place place' : ProbePlace} (h : place.Moves s.readiness place') :
      Moves cfg run s (.probe place) (.probe place') s
  | accepts {headers : HeaderMap} {endpoint : Endpoint} :
      Moves cfg run s (.operator headers endpoint .asked)
        (.operator headers endpoint (.running (endpoint.handler cfg headers))) s
  | handles {headers : HeaderMap} {endpoint : Endpoint} {a : AdminAct}
      {next : a.Res → AdminTask AdminAnswer} {choice : DaemonChoice} {r : a.Res} {s' : Daemon}
      (h : a.exec choice s = some (r, s')) :
      Moves cfg run s (.operator headers endpoint (.running (.act a next)))
        (.operator headers endpoint (.running (next r))) s'
  | client {job : Incoming} {phase phase' : Phase} {choice : HostChoice} {host : Host}
      (h : phase.move cfg job choice s.host = some (phase', host)) :
      Moves cfg run s (.client job phase) (.client job phase') { s with host := host }

theorem DaemonThread.moves_of_move (h : t.move cfg run choice s = some (t', s')) :
    s.exited = none ∧ t.Moves cfg run s t' s' := by
  unfold DaemonThread.move at h
  split at h
  · cases h
  · next hrunning =>
      simp only [Bool.or_eq_true, Option.isSome_iff_ne_none, not_or, not_not] at hrunning
      refine ⟨hrunning.1, ?_⟩
      cases t with
      | main place =>
          simp only [Option.map_eq_some_iff, Prod.mk.injEq] at h
          obtain ⟨⟨place', next⟩, hmove, rfl, rfl⟩ := h
          exact .main (MainPlace.moves_of_move hmove)
      | probe place =>
          simp only [Option.map_eq_some_iff, Prod.mk.injEq] at h
          obtain ⟨place', hmove, rfl, rfl⟩ := h
          exact .probe (ProbePlace.moves_of_move hmove)
      | operator headers endpoint place =>
          simp only [Option.map_eq_some_iff, Prod.mk.injEq] at h
          obtain ⟨⟨place', next⟩, hmove, rfl, rfl⟩ := h
          unfold OperatorPlace.move at hmove
          split at hmove
          · cases hmove
            exact .accepts
          · simp only [Option.map_eq_some_iff, Prod.mk.injEq] at hmove
            obtain ⟨⟨r, s''⟩, hexec, rfl, rfl⟩ := hmove
            exact .handles hexec
          · cases hmove
      | client job phase =>
          simp only [Option.bind_eq_some_iff, Option.map_eq_some_iff, Prod.mk.injEq] at h
          obtain ⟨c, -, ⟨phase', host⟩, hmove, rfl, rfl⟩ := h
          exact .client hmove

/-- Nobody but `run` brings the process up or down. -/
theorem DaemonThread.Moves.keeps (h : t.Moves cfg run s t' s') (hother : ∀ place, t ≠ .main place) :
    s.Keeps s' := by
  cases h with
  | main hmove => exact absurd rfl (hother _)
  | probe hmove => exact .refl s
  | accepts => exact .refl s
  | handles hexec => exact (AdminAct.exec_keeps hexec).1
  | client hmove =>
      exact ⟨rfl, rfl, rfl, rfl, id, Phase.draining_of_move hmove, rfl, rfl⟩

theorem DaemonThread.Moves.grows (h : t.Moves cfg run s t' s') : s.Grows s' := by
  cases t with
  | main place =>
      cases h with
      | main hmove => exact hmove.grows
  | _ => exact (h.keeps nofun).grows

/-! ## How far `run` has come -/

/-- What the stages that are done have set up. -/
structure Daemon.After (run : RunConfig) (done : List Stage) (s : Daemon) : Prop where
  adminBound : s.adminBound = decide (.bindAdmin ∈ done)
  httpBound : s.httpBound = decide (.bindHttp ∈ done)
  storeOpen : s.readiness.storeOpen = decide (.markStoreOpen ∈ done)
  listenersBound : s.readiness.listenersBound = decide (.markListenersBound ∈ done)
  api : s.api = if .publishApi ∈ done then some run.api else none

theorem Daemon.After.perform (h : s.After run done) (stage : Stage) :
    (stage.perform run s).After run (done ++ [stage]) := by
  obtain ⟨hadmin, hhttp, hstore, hbound, hapi⟩ := h
  cases stage with
  | publishApi =>
      have hfirst : s.api.getD run.api = run.api := by
        rw [hapi]
        split <;> rfl
      constructor <;> simp [Stage.perform, hadmin, hhttp, hstore, hbound, hfirst]
  | _ => constructor <;> simp [Stage.perform, hadmin, hhttp, hstore, hbound, hapi]

/-- The part of the stages that is done, by its length. -/
theorem startup_take (h : startup = done ++ rest) :
    startup.take done.length = done := by
  rw [h, List.take_left]

/-- The API is published when the store is open and the listeners are bound. -/
theorem startup_published (h : startup = done ++ rest) (hmem : .publishApi ∈ done) :
    .markStoreOpen ∈ done ∧ .markListenersBound ∈ done := by
  have hcases : ∀ k ≤ startup.length, .publishApi ∈ startup.take k →
      .markStoreOpen ∈ startup.take k ∧ .markListenersBound ∈ startup.take k := by decide
  have hle : done.length ≤ startup.length := by
    rw [h, List.length_append]
    omega
  have hdone := hcases done.length hle
  rw [startup_take h] at hdone
  exact hdone hmem

/-- What holds while `run` is at a place. -/
def MainPlace.Fits (run : RunConfig) (s : Daemon) : MainPlace → Prop
  | .starting rest => s.exited = none ∧ s.host.drain.draining = false ∧
      ∃ done, startup = done ++ rest ∧ s.After run done
  | .signalled => s.exited = none ∧ s.host.drain.draining = false ∧ s.After run startup
  | .draining _ => s.exited = none ∧ s.readiness.draining = true ∧ s.After run startup
  | .ended => (s.exited = some 0 ∧ s.readiness.draining = true ∧ s.After run startup) ∨
      ∃ done stage rest fatal, startup = done ++ stage :: rest ∧ stage.fatal run = some fatal ∧
        s.exited = some fatal.exitCode ∧ s.host.drain.draining = false ∧ s.After run done

/-- The order of things: readiness fails before a client is refused, and it fails for nobody
before the API is published. -/
structure Daemon.Ordered (run : RunConfig) (s : Daemon) : Prop where
  api : ∀ {state : ApiState}, s.api = some state → state = run.api
  published : s.api = some run.api →
    s.readiness.storeOpen = true ∧ s.readiness.listenersBound = true
  draining : s.readiness.draining = true → s.api = some run.api
  refusing : s.host.drain.draining = true → s.readiness.draining = true

/-- The order of the outlooks. -/
def Outlook.rank : Outlook → ℕ
  | .starting => 0
  | .ready => 1
  | .draining => 2

/-- What holds of each thread. -/
def DaemonThread.Stands (cfg : Config) (run : RunConfig) (s : Daemon) (tid : ℕ) :
    DaemonThread → Prop
  | .main place => tid = 0 ∧ place.Fits run s
  | .probe .opened => s.readiness.storeOpen = true
  | .probe (.answered outlook) => outlook.rank ≤ s.outlook.rank
  | .probe _ => True
  | .operator _ _ .asked => True
  | .operator headers endpoint (.running rest) => rest = endpoint.handler cfg headers ∨
      rest = .ret .starting ∨ (s.api = some run.api ∧ endpoint.Guarded run.api headers rest)
  | .client _ phase => phase.work = .refused → s.host.drain.draining = true

theorem Stage.perform_frame (run : RunConfig) (s : Daemon) (stage : Stage) :
    (stage.perform run s).host = s.host ∧ (stage.perform run s).exited = s.exited ∧
      (stage.perform run s).readiness.draining = s.readiness.draining := by
  cases stage <;> exact ⟨rfl, rfl, rfl⟩

theorem Daemon.After.published (h : s.After run startup) :
    s.api = some run.api :=
  h.api.trans (if_pos (by decide))

/-- A step of `run` keeps to the order, and leads to the next place. -/
theorem MainPlace.Fits.move (hordered : s.Ordered run) (hfits : place.Fits run s)
    (hmove : place.Moves run s place' s') :
    s'.Ordered run ∧ place'.Fits run s' := by
  cases hmove with
  | @performs stage rest =>
      obtain ⟨hexited, hrefusing, done, hdone, hafter⟩ := hfits
      obtain ⟨hhost, hexited', hdraining⟩ := Stage.perform_frame run s stage
      have hnext := hafter.perform stage
      have hdone' : startup = (done ++ [stage]) ++ rest := by
        rw [hdone, List.append_assoc]
        rfl
      have hrefusing' : (stage.perform run s).host.drain.draining = false := by
        rw [hhost, hrefusing]
      refine ⟨⟨fun {state} hstate => ?_, fun hapi => ?_, fun h => ?_, fun h => ?_⟩,
        hexited'.trans hexited, hrefusing', done ++ [stage], hdone', hnext⟩
      · rw [hnext.api] at hstate
        split at hstate
        · exact (Option.some.inj hstate).symm
        · cases hstate
      · have hmem : .publishApi ∈ done ++ [stage] := by
          by_contra hnone
          rw [hnext.api, if_neg hnone] at hapi
          cases hapi
        obtain ⟨hstore, hbound⟩ := startup_published hdone' hmem
        rw [hnext.storeOpen, hnext.listenersBound]
        exact ⟨decide_eq_true hstore, decide_eq_true hbound⟩
      · rw [hdraining] at h
        exact (Stage.perform_grows run s stage).api (hordered.draining h)
      · rw [hrefusing'] at h
        cases h
  | fails hfatal =>
      obtain ⟨-, hrefusing, done, hdone, hafter⟩ := hfits
      exact ⟨{ hordered with }, .inr ⟨done, _, _, _, hdone, hfatal, rfl, hrefusing,
        { hafter with }⟩⟩
  | hears =>
      obtain ⟨hexited, hrefusing, done, hdone, hafter⟩ := hfits
      rw [List.append_nil] at hdone
      exact ⟨hordered, hexited, hrefusing, hdone ▸ hafter⟩
  | fades =>
      obtain ⟨hexited, hrefusing, hafter⟩ := hfits
      exact ⟨⟨hordered.api, hordered.published, fun _ => hafter.published, fun _ => rfl⟩, hexited,
        rfl, { hafter with }⟩
  | drains hmove =>
      obtain ⟨hexited, hdraining, hafter⟩ := hfits
      exact ⟨⟨hordered.api, hordered.published, hordered.draining, fun _ => hdraining⟩, hexited,
        hdraining, { hafter with }⟩
  | exits =>
      obtain ⟨-, hdraining, hafter⟩ := hfits
      exact ⟨{ hordered with }, .inl ⟨rfl, hdraining, { hafter with }⟩⟩

theorem Daemon.After.keeps (h : s.After run done) (hkeeps : s.Keeps s') : s'.After run done where
  adminBound := hkeeps.adminBound.trans h.adminBound
  httpBound := hkeeps.httpBound.trans h.httpBound
  storeOpen := hkeeps.storeOpen.trans h.storeOpen
  listenersBound := hkeeps.listenersBound.trans h.listenersBound
  api := hkeeps.api.trans h.api

/-- The others leave `run` where it is. -/
theorem MainPlace.Fits.keeps (h : place.Fits run s) (hkeeps : s.Keeps s') : place.Fits run s' := by
  cases place with
  | starting rest =>
      obtain ⟨hexited, hrefusing, done, hdone, hafter⟩ := h
      exact ⟨hkeeps.exited.trans hexited, hkeeps.refusing.trans hrefusing, done, hdone,
        hafter.keeps hkeeps⟩
  | signalled =>
      exact ⟨hkeeps.exited.trans h.1, hkeeps.refusing.trans h.2.1, h.2.2.keeps hkeeps⟩
  | draining d => exact ⟨hkeeps.exited.trans h.1, hkeeps.draining h.2.1, h.2.2.keeps hkeeps⟩
  | ended =>
      rcases h with ⟨hexited, hdraining, hafter⟩ | ⟨done, stage, rest, fatal, hdone, hfatal,
        hexited, hrefusing, hafter⟩
      · exact .inl ⟨hkeeps.exited.trans hexited, hkeeps.draining hdraining, hafter.keeps hkeeps⟩
      · exact .inr ⟨done, stage, rest, fatal, hdone, hfatal, hkeeps.exited.trans hexited,
          hkeeps.refusing.trans hrefusing, hafter.keeps hkeeps⟩

theorem Daemon.outlook_of_draining (s : Daemon) (h : s.readiness.draining = true) :
    s.outlook = .draining := if_pos h

theorem Daemon.outlook_of_bound (s : Daemon) (hdraining : s.readiness.draining = false)
    (hstore : s.readiness.storeOpen = true) (hbound : s.readiness.listenersBound = true) :
    s.outlook = .ready := by
  simp [Daemon.outlook, hdraining, hstore, hbound]

theorem Daemon.outlook_of_unbound (s : Daemon) (hdraining : s.readiness.draining = false)
    (h : s.readiness.storeOpen = false ∨ s.readiness.listenersBound = false) :
    s.outlook = .starting := by
  rcases h with h | h <;> simp [Daemon.outlook, hdraining, h]

theorem Daemon.ready_le (s : Daemon) (hstore : s.readiness.storeOpen = true)
    (hbound : s.readiness.listenersBound = true) : Outlook.ready.rank ≤ s.outlook.rank := by
  cases hdraining : s.readiness.draining with
  | true =>
      rw [s.outlook_of_draining hdraining]
      exact Nat.le_succ 1
  | false => rw [s.outlook_of_bound hdraining hstore hbound]

/-- The outlook never goes back. -/
theorem Daemon.Grows.rank_le (h : s.Grows s') :
    s.outlook.rank ≤ s'.outlook.rank := by
  cases hdraining : s.readiness.draining with
  | true => rw [s.outlook_of_draining hdraining, s'.outlook_of_draining (h.draining hdraining)]
  | false =>
      by_cases hready : s.readiness.storeOpen = true ∧ s.readiness.listenersBound = true
      · rw [s.outlook_of_bound hdraining hready.1 hready.2]
        exact s'.ready_le (h.storeOpen hready.1) (h.listenersBound hready.2)
      · have hstarting : s.outlook = .starting := by
          refine s.outlook_of_unbound hdraining ?_
          rw [not_and_or, Bool.not_eq_true, Bool.not_eq_true] at hready
          exact hready
        rw [hstarting]
        exact Nat.zero_le _

/-- What holds of a thread other than `run` goes on to hold. -/
theorem DaemonThread.Stands.grows (hother : ∀ place, t ≠ .main place) (h : t.Stands cfg run s tid)
    (hgrows : s.Grows s') : t.Stands cfg run s' tid := by
  cases t with
  | main place => exact absurd rfl (hother place)
  | probe place =>
      cases place with
      | opened => exact hgrows.storeOpen h
      | answered outlook => exact le_trans h hgrows.rank_le
      | _ => trivial
  | operator headers endpoint place =>
      cases place with
      | asked => trivial
      | running rest => exact h.imp_right (.imp_right fun hrest => ⟨hgrows.api hrest.1, hrest.2⟩)
  | client job phase => exact fun hrefused => hgrows.refusing (h hrefused)

/-- What a handler's step comes to. -/
theorem DaemonThread.Stands.handles {headers : HeaderMap} {endpoint : Endpoint} {a : AdminAct}
    {next : a.Res → AdminTask AdminAnswer} {r : a.Res} (hordered : s.Ordered run)
    (h : DaemonThread.Stands cfg run s tid (.operator headers endpoint (.running (.act a next))))
    (hexec : a.exec choice s = some (r, s')) :
    (a.touches = true → s.api = some run.api ∧ endpoint.mutates = true ∧
      run.api.Credentials headers) ∧
    DaemonThread.Stands cfg run s' tid (.operator headers endpoint (.running (next r))) := by
  rcases h with hfirst | hret | ⟨hpublished, hguarded⟩
  · -- the handler's first step reads what is published
    obtain ⟨next', hhandler, hnone, hsome⟩ := endpoint.handler_checked cfg headers
    rw [hhandler] at hfirst
    cases hfirst
    refine ⟨nofun, .inr ?_⟩
    cases choice with
    | go =>
        cases hexec
        cases hapi : s.api with
        | none => exact .inl hnone
        | some state =>
            obtain rfl := hordered.api hapi
            exact .inr ⟨rfl, hsome run.api⟩
    | _ => cases hexec
  · cases hret
  · have hkeeps := (AdminAct.exec_keeps hexec).1
    refine ⟨fun htouches => ⟨hpublished, hguarded.touches.1 htouches⟩,
      .inr (.inr ⟨hkeeps.api.trans hpublished, hguarded.touches.2 r, fun refusal hrefusal => ?_⟩)⟩
    cases hguarded.refuses refusal hrefusal

theorem Work.draining_of_refused {w : Work} {d d' : Drain}
    (h : w.move d = some (.refused, d')) : d'.draining = true := by
  cases w with
  | arriving =>
      simp only [Work.move, Option.some.injEq, Prod.mk.injEq] at h
      obtain ⟨hrefused, rfl⟩ := h
      by_contra hopen
      rw [if_neg hopen] at hrefused
      cases hrefused
  | admitted =>
      simp only [Work.move, Option.map_eq_some_iff, Prod.mk.injEq] at h
      obtain ⟨e, -, hlive, -⟩ := h
      cases hlive
  | live =>
      simp only [Work.move, Option.some.injEq, Prod.mk.injEq] at h
      obtain ⟨hrefused, -⟩ := h
      split at hrefused <;> cases hrefused
  | leaving | left | refused => cases h

/-- A thread's own step. -/
theorem DaemonThread.Stands.move (hordered : s.Ordered run) (h : t.Stands cfg run s tid)
    (hmove : t.Moves cfg run s t' s') : s'.Ordered run ∧ t'.Stands cfg run s' tid := by
  cases hmove with
  | main hplace =>
      obtain ⟨hordered', hfits⟩ := h.2.move hordered hplace
      exact ⟨hordered', h.1, hfits⟩
  | @probe place place' hplace =>
      refine ⟨hordered, ?_⟩
      cases hplace with
      | opened hopen => exact hopen
      | bound hbound => exact s.ready_le h hbound
      | draining hdraining => exact (s.outlook_of_draining hdraining).symm ▸ le_rfl
      | starting => exact Nat.zero_le _
      | _ => trivial
  | accepts => exact ⟨hordered, .inl rfl⟩
  | @handles headers endpoint a next choice r s' hexec =>
      obtain ⟨htouches, hnext⟩ := h.handles hordered hexec
      obtain ⟨hkeeps, hsame⟩ := AdminAct.exec_keeps hexec
      refine ⟨⟨fun hstate => hordered.api (hkeeps.api.symm.trans hstate), fun hapi => ?_,
        fun hdraining => ?_, fun hrefusing => ?_⟩, hnext⟩
      · rw [hkeeps.storeOpen, hkeeps.listenersBound]
        exact hordered.published (hkeeps.api.symm.trans hapi)
      · cases htouch : a.touches with
        | true => exact hkeeps.api.trans (htouches htouch).1
        | false =>
            rw [hsame htouch] at hdraining ⊢
            exact hordered.draining hdraining
      · exact hkeeps.draining (hordered.refusing (hkeeps.refusing.symm.trans hrefusing))
  | client hphase =>
      have hsame := Phase.draining_of_move hphase
      refine ⟨⟨hordered.api, hordered.published, hordered.draining, fun hrefusing =>
        hordered.refusing (hsame.symm.trans hrefusing)⟩, fun hrefused => ?_⟩
      rcases Phase.work_of_move hphase with ⟨hwork, -⟩ | hwork
      · exact hsame.trans (h (hwork.symm.trans hrefused))
      · rw [hrefused] at hwork
        exact Work.draining_of_refused hwork

/-- **What every run of the process keeps.** -/
theorem daemon_modular (cfg : Config) (run : RunConfig) :
    (daemon cfg run).Modular (Daemon.Ordered run) (DaemonThread.Stands cfg run) where
  start := by
    intro s tid t hordered hstart
    cases t with
    | main place => cases hstart
    | probe place =>
        obtain rfl : place = .asked := of_decide_eq_true hstart
        trivial
    | operator headers endpoint place =>
        cases place with
        | asked => trivial
        | running rest => cases hstart
    | client job phase =>
        cases phase with
        | arriving => exact nofun
        | _ => cases hstart
  own := fun hordered hstands hmove => hstands.move hordered (DaemonThread.moves_of_move hmove).2
  others := by
    intro s s' tid t t' choice other u hordered hstands hmove hne hother
    have hmoves := (DaemonThread.moves_of_move hmove).2
    cases u with
    | main place =>
        -- `run` is one thread, so it is another that moves
        refine ⟨hother.1, hother.2.keeps (hmoves.keeps ?_)⟩
        rintro place' rfl
        exact hne (hother.1.trans hstands.1.symm)
    | _ => exact hother.grows nofun hmoves.grows

section Runs

variable {cfg : Config} {run : RunConfig} {shared : Shared} {team : DaemonTeam}
  {steps : List (Step DaemonThread DaemonChoice)}

theorem DaemonTeam.holds_init (cfg : Config) (run : RunConfig) (shared : Shared) :
    Machine.Holds (Daemon.Ordered run) (DaemonThread.Stands cfg run) (DaemonTeam.init shared) := by
  refine ⟨⟨nofun, nofun, nofun, nofun⟩, fun {tid t} ht => ?_⟩
  cases tid with
  | zero =>
      cases ht
      exact ⟨rfl, rfl, rfl, [], rfl, rfl, rfl, rfl, rfl, rfl⟩
  | succ n => cases ht

theorem DaemonTeam.holds_of_run
    (hrun : (daemon cfg run).run (DaemonTeam.init shared) steps = some team) :
    Machine.Holds (Daemon.Ordered run) (DaemonThread.Stands cfg run) team :=
  (daemon_modular cfg run).run (DaemonTeam.holds_init cfg run shared) hrun

/-! ## A probe tells what was the case -/

variable {s : Daemon} {place : ProbePlace} {past : Outlook → Prop}

/-- Readiness fails only when the process was ready. -/
theorem DaemonThread.Moves.ready_of_draining {s' : Daemon} {tid : ℕ} {t t' : DaemonThread}
    (hmove : t.Moves cfg run s t' s') (hordered : s.Ordered run)
    (hstands : t.Stands cfg run s tid) (hbefore : s.readiness.draining = false)
    (hafter : s'.readiness.draining = true) :
    s.outlook = .ready := by
  have hpublished : s.api = some run.api := by
    cases hmove with
    | main hplace =>
        cases hplace with
        | @performs stage rest =>
            rw [(Stage.perform_frame run s stage).2.2, hbefore] at hafter
            cases hafter
        | fades => exact hstands.2.2.2.published
        | _ =>
            rw [hbefore] at hafter
            cases hafter
    | @handles headers endpoint a next choice r s' hexec =>
        obtain ⟨htouches, -⟩ := hstands.handles hordered hexec
        cases htouch : a.touches with
        | true => exact (htouches htouch).1
        | false =>
            rw [(AdminAct.exec_keeps hexec).2 htouch, hbefore] at hafter
            cases hafter
    | _ =>
        rw [hbefore] at hafter
        cases hafter
  obtain ⟨hstore, hbound⟩ := hordered.published hpublished
  exact s.outlook_of_bound hbefore hstore hbound

/-- What a probe has to show for its place: `past` are the outlooks there were since it was
asked. -/
def ProbePlace.Justified (past : Outlook → Prop) (s : Daemon) : ProbePlace → Prop
  | .asked => True
  | .undrained => s.readiness.draining = false ∨ past .ready
  | .opened => s.readiness.storeOpen = true ∧ (s.readiness.draining = false ∨ past .ready)
  | .unready => s.readiness.draining = true ∨ past .starting
  | .answered outlook => past outlook

/-- What is past stays past. -/
theorem ProbePlace.Justified.mono {past' : Outlook → Prop} (h : place.Justified past s)
    (hpast : ∀ outlook, past outlook → past' outlook) :
    place.Justified past' s := by
  cases place with
  | asked => trivial
  | undrained => exact h.imp_right (hpast _)
  | opened => exact ⟨h.1, h.2.imp_right (hpast _)⟩
  | unready => exact h.imp_right (hpast _)
  | answered outlook => exact hpast _ h

/-- The probe's own step: what it reads is what is the case. -/
theorem ProbePlace.Justified.move {place' : ProbePlace} (h : place.Justified past s)
    (hnow : past s.outlook) (hmove : place.Moves s.readiness place') :
    place'.Justified past s := by
  cases hmove with
  | drained hdraining => exact .inl hdraining
  | undrained hdraining => exact .inl hdraining
  | opened hopen => exact ⟨hopen, h⟩
  | unopened hclosed =>
      cases hdraining : s.readiness.draining with
      | true => exact .inl hdraining
      | false => exact .inr (s.outlook_of_unbound hdraining (.inl hclosed) ▸ hnow)
  | bound hbound =>
      rcases h with ⟨hopen, hdraining | hready⟩
      · exact s.outlook_of_bound hdraining hopen hbound ▸ hnow
      · exact hready
  | unbound hunbound =>
      cases hdraining : s.readiness.draining with
      | true => exact .inl hdraining
      | false => exact .inr (s.outlook_of_unbound hdraining (.inr hunbound) ▸ hnow)
  | draining hdraining => exact s.outlook_of_draining hdraining ▸ hnow
  | starting hdraining =>
      refine h.resolve_left fun hset => ?_
      rw [hdraining] at hset
      cases hset

/-- Another's step: readiness may fail meanwhile, but then the process was ready. -/
theorem ProbePlace.Justified.grows {s' : Daemon} (h : place.Justified past s)
    (hgrows : s.Grows s')
    (hready : s.readiness.draining = false → s'.readiness.draining = true → past .ready) :
    place.Justified past s' := by
  have hundrained : s.readiness.draining = false ∨ past .ready →
      s'.readiness.draining = false ∨ past .ready := by
    rintro (hbefore | hpast)
    · cases hafter : s'.readiness.draining with
      | true => exact .inr (hready hbefore hafter)
      | false => exact .inl rfl
    · exact .inr hpast
  cases place with
  | asked => trivial
  | undrained => exact hundrained h
  | opened => exact ⟨hgrows.storeOpen h.1, hundrained h.2⟩
  | unready => exact h.imp_left hgrows.draining
  | answered outlook => exact h

variable {tid : ℕ} {later : List (Step DaemonThread DaemonChoice)} {team' : DaemonTeam}
  {outlook : Outlook}

/-- Between its question and its answer a probe stands at a place that is justified by what the
process was since it was asked. -/
theorem justified_of_run (hrun : (daemon cfg run).run (DaemonTeam.init shared) steps = some team)
    (hasked : team.threads[tid]? = some (.probe .asked))
    (hlater : (daemon cfg run).run team later = some team')
    (hplace : team'.threads[tid]? = some (.probe place)) :
    place.Justified (fun outlook =>
      (daemon cfg run).Sometime (fun moment => moment.shared.outlook = outlook) team later)
      team'.shared := by
  let past (done : List (Step DaemonThread DaemonChoice)) (outlook : Outlook) : Prop :=
    (daemon cfg run).Sometime (fun moment => moment.shared.outlook = outlook) team done
  have hstands : Machine.Holds (Daemon.Ordered run) (DaemonThread.Stands cfg run) team' ∧
      ∃ place, team'.threads[tid]? = some (.probe place) ∧
        place.Justified (past later) team'.shared := by
    refine Machine.run_induct_past (m := daemon cfg run) (I := fun done now =>
      Machine.Holds (Daemon.Ordered run) (DaemonThread.Stands cfg run) now ∧
        ∃ place, now.threads[tid]? = some (.probe place) ∧
          place.Justified (past done) now.shared) ?_
      ⟨DaemonTeam.holds_of_run hrun, .asked, hasked, trivial⟩ hlater
    rintro done now st next hnow ⟨hholds, place, hthread, hjustified⟩ hstep
    refine ⟨(daemon_modular cfg run).step hholds hstep, ?_⟩
    have hmoment : past done now.shared.outlook := Machine.sometime_last hnow rfl
    have hpast : ∀ outlook, past done outlook → past (done ++ [st]) outlook :=
      fun _ hdone => hdone.append [st]
    cases st with
    | spawn t =>
        obtain ⟨-, rfl⟩ := Machine.step_spawn_iff.mp hstep
        have hlt : tid < now.threads.length := (List.getElem?_eq_some_iff.mp hthread).1
        refine ⟨place, ?_, hjustified.mono hpast⟩
        rw [List.getElem?_append_left hlt, hthread]
    | go mover choice =>
        obtain ⟨t, t', s', ht, hmove, rfl⟩ := Machine.step_go_iff.mp hstep
        have hmoves := (DaemonThread.moves_of_move hmove).2
        by_cases hown : mover = tid
        · subst hown
          obtain rfl := Option.some.inj (ht.symm.trans hthread)
          cases hmoves with
          | @probe place place' hplace =>
              refine ⟨place', ?_, (hjustified.move hmoment hplace).mono hpast⟩
              exact List.getElem?_set_self (List.getElem?_eq_some_iff.mp ht).1
        · refine ⟨place, ?_, (hjustified.grows hmoves.grows fun hbefore hafter => ?_).mono hpast⟩
          · exact (List.getElem?_set_ne hown).trans hthread
          · exact hmoves.ready_of_draining hholds.shared (hholds.thread ht) hbefore hafter ▸ hmoment
  obtain ⟨-, stands, hthread, hjustified⟩ := hstands
  cases Option.some.inj (hthread.symm.trans hplace)
  exact hjustified

/-- **A probe tells what was the case while it was asked.**  `/readyz` reads its flags one after
the other, while the process comes up, is drained by an operator or by a signal, and serves
clients.  Its answer is nevertheless what the process was at one moment between the question and
the answer. -/
theorem readyz_linearised
    (hrun : (daemon cfg run).run (DaemonTeam.init shared) steps = some team)
    (hasked : team.threads[tid]? = some (.probe .asked))
    (hlater : (daemon cfg run).run team later = some team')
    (hanswered : team'.threads[tid]? = some (.probe (.answered outlook))) :
    (daemon cfg run).Sometime (fun moment => moment.shared.outlook = outlook) team later :=
  justified_of_run hrun hasked hlater hanswered

namespace Scenario

/-- A process with a token, whose admin port is reachable from elsewhere. -/
def runConfig : RunConfig where
  adminBind := .v4 { o0 := 192, o1 := 168, o2 := 1, o3 := 10 }
  adminToken := "s3cret"
  domainsDir := false
  services := []
  cacheDiskSize := 2 ^ 30
  minFreeDisk := 2 ^ 20

/-- All stages succeed. -/
def comesUp : List (ThreadTeam.Step DaemonThread DaemonChoice) :=
  List.replicate 15 (.go 0 .go)

/-- A probe has read that the process is not draining when the signal comes. -/
def signalMeanwhile : List (ThreadTeam.Step DaemonThread DaemonChoice) :=
  [.go 1 .go, .go 0 .signal, .go 0 .go, .go 1 .go, .go 1 .go]

/-- It answers `ready` to a process that is draining by then. -/
theorem readyz_linearised_meanwhile : ∃ team team' : DaemonTeam,
    (daemon config runConfig).run (DaemonTeam.init .init) (comesUp ++ [.spawn (.probe .asked)]) =
        some team ∧
      (daemon config runConfig).run team signalMeanwhile = some team' ∧
      team'.threads[1]? = some (.probe (.answered .ready)) ∧ team'.shared.outlook = .draining ∧
      (daemon config runConfig).Sometime (fun moment => moment.shared.outlook = .ready) team
        signalMeanwhile := by
  obtain ⟨team, team', hteam, hasked, hteam', hanswered, hdraining⟩ : ∃ team team' : DaemonTeam,
      (daemon config runConfig).run (DaemonTeam.init .init) (comesUp ++ [.spawn (.probe .asked)]) =
          some team ∧ team.threads[1]? = some (.probe .asked) ∧
        (daemon config runConfig).run team signalMeanwhile = some team' ∧
        team'.threads[1]? = some (.probe (.answered .ready)) ∧ team'.shared.outlook = .draining :=
    ⟨_, _, rfl, rfl, rfl, rfl, rfl⟩
  exact ⟨team, team', hteam, hteam', hanswered, hdraining,
    readyz_linearised hteam hasked hteam' hanswered⟩

end Scenario

/-- Over a run the outlook never goes back. -/
theorem rank_le_of_run (hlater : (daemon cfg run).run team later = some team') :
    team.shared.outlook.rank ≤ team'.shared.outlook.rank := by
  refine Machine.run_induct (I := fun now : DaemonTeam =>
    team.shared.outlook.rank ≤ now.shared.outlook.rank) ?_ le_rfl hlater
  intro now st next hnow hstep
  cases st with
  | spawn t =>
      obtain ⟨-, rfl⟩ := Machine.step_spawn_iff.mp hstep
      exact hnow
  | go mover choice =>
      obtain ⟨t, t', s', -, hmove, rfl⟩ := Machine.step_go_iff.mp hstep
      exact hnow.trans (DaemonThread.moves_of_move hmove).2.grows.rank_le

/-- **Probes never go back.**  Whoever asks after another has been answered hears no less: first
`starting`, then `ready`, then `draining`. -/
theorem readyz_never_back {asker : ℕ} {first second : Outlook}
    (hrun : (daemon cfg run).run (DaemonTeam.init shared) steps = some team)
    (hfirst : team.threads[tid]? = some (.probe (.answered first)))
    (hasked : team.threads[asker]? = some (.probe .asked))
    (hlater : (daemon cfg run).run team later = some team')
    (hsecond : team'.threads[asker]? = some (.probe (.answered second))) :
    first.rank ≤ second.rank := by
  obtain ⟨k, moment, hmoment, rfl⟩ := justified_of_run hrun hasked hlater hsecond
  have hbefore : first.rank ≤ team.shared.outlook.rank :=
    (DaemonTeam.holds_of_run hrun).thread hfirst
  exact hbefore.trans (rank_le_of_run hmoment)

namespace Scenario

/-- One probe is answered; another is asked, the signal comes, and it is answered. -/
def signalBetween : List (ThreadTeam.Step DaemonThread DaemonChoice) :=
  [.go 0 .signal, .go 0 .go, .go 2 .go, .go 2 .go]

theorem readyz_never_back_between : ∃ team team' : DaemonTeam,
    (daemon config runConfig).run (DaemonTeam.init .init) (comesUp ++
        [.spawn (.probe .asked), .go 1 .go, .go 1 .go, .go 1 .go, .spawn (.probe .asked)]) =
        some team ∧
      (daemon config runConfig).run team signalBetween = some team' ∧
      team.threads[1]? = some (.probe (.answered .ready)) ∧
      team'.threads[2]? = some (.probe (.answered .draining)) ∧
      Outlook.ready.rank ≤ Outlook.draining.rank := by
  obtain ⟨team, team', hteam, hfirst, hasked, hteam', hsecond⟩ : ∃ team team' : DaemonTeam,
      (daemon config runConfig).run (DaemonTeam.init .init) (comesUp ++
          [.spawn (.probe .asked), .go 1 .go, .go 1 .go, .go 1 .go, .spawn (.probe .asked)]) =
          some team ∧ team.threads[1]? = some (.probe (.answered .ready)) ∧
        team.threads[2]? = some (.probe .asked) ∧
        (daemon config runConfig).run team signalBetween = some team' ∧
        team'.threads[2]? = some (.probe (.answered .draining)) :=
    ⟨_, _, rfl, rfl, rfl, rfl, rfl⟩
  exact ⟨team, team', hteam, hteam', hfirst, hsecond,
    readyz_never_back hteam hfirst hasked hteam' hsecond⟩

end Scenario

/-! ## Readiness fails first -/

/-- `run` is the first thread. -/
theorem main_of_run (hrun : (daemon cfg run).run (DaemonTeam.init shared) steps = some team) :
    ∃ place, team.threads[0]? = some (.main place) := by
  refine Machine.run_induct (I := fun now : DaemonTeam =>
    ∃ place, now.threads[0]? = some (.main place)) ?_ ⟨_, rfl⟩ hrun
  rintro now st next ⟨place, hplace⟩ hstep
  cases st with
  | spawn t =>
      obtain ⟨-, rfl⟩ := Machine.step_spawn_iff.mp hstep
      have hlt : 0 < now.threads.length := (List.getElem?_eq_some_iff.mp hplace).1
      exact ⟨place, (List.getElem?_append_left hlt).trans hplace⟩
  | go mover choice =>
      obtain ⟨t, t', s', ht, hmove, rfl⟩ := Machine.step_go_iff.mp hstep
      by_cases hmain : mover = 0
      · subst hmain
        obtain rfl := Option.some.inj (ht.symm.trans hplace)
        have hmoves : DaemonThread.Moves cfg run now.shared (.main place) t' s' :=
          (DaemonThread.moves_of_move hmove).2
        cases hmoves with
        | @main _ place' _ _ =>
            exact ⟨place', List.getElem?_set_self (List.getElem?_eq_some_iff.mp ht).1⟩
      · exact ⟨place, (List.getElem?_set_ne hmain).trans hplace⟩

/-- The signal has come and readiness has failed for it: `run` drains, or has ended with that. -/
def DaemonTeam.Stopping (team : DaemonTeam) : Prop :=
  (∃ d, team.threads[0]? = some (.main (.draining d))) ∨
    (team.threads[0]? = some (.main .ended) ∧ team.shared.exited = some 0)

/-- **Nobody is turned away before readiness has failed.**  A client is refused only after the
signal, when readiness is already draining, and a probe that is asked from then on hears
`draining`.  `/drain` alone refuses nobody. -/
theorem refused_after_unready {job : Incoming}
    (hrun : (daemon cfg run).run (DaemonTeam.init shared) steps = some team)
    (hrefused : .client job .refused ∈ team.threads) :
    team.Stopping ∧ team.shared.readiness.draining = true ∧
      ((daemon cfg run).run team later = some team' →
        team.threads[tid]? = some (.probe .asked) →
        team'.threads[tid]? = some (.probe (.answered outlook)) → outlook = .draining) := by
  have hholds := DaemonTeam.holds_of_run hrun
  obtain ⟨client, hclient⟩ := List.getElem?_of_mem hrefused
  have hrefusing : team.shared.host.drain.draining = true := hholds.thread hclient rfl
  have hdraining := hholds.shared.refusing hrefusing
  refine ⟨?_, hdraining, fun hlater hasked hanswered => ?_⟩
  · obtain ⟨place, hplace⟩ := main_of_run hrun
    have hfits := (hholds.thread hplace).2
    cases place with
    | starting rest =>
        rw [hfits.2.1] at hrefusing
        cases hrefusing
    | signalled =>
        rw [hfits.2.1] at hrefusing
        cases hrefusing
    | draining d => exact .inl ⟨d, hplace⟩
    | ended =>
        rcases hfits with ⟨hzero, -, -⟩ | ⟨done, stage, rest, fatal, -, -, -, hopen, -⟩
        · exact .inr ⟨hplace, hzero⟩
        · rw [hopen] at hrefusing
          cases hrefusing
  · obtain ⟨k, moment, hmoment, rfl⟩ := justified_of_run hrun hasked hlater hanswered
    have hle := rank_le_of_run hmoment
    rw [team.shared.outlook_of_draining hdraining] at hle
    cases houtlook : moment.shared.outlook with
    | draining => rfl
    | _ =>
        rw [houtlook] at hle
        exact absurd hle (by decide)

namespace Scenario

/-- The signal comes and `drain` is called; then a client arrives, and a probe is asked. -/
def turnedAway : List (ThreadTeam.Step DaemonThread DaemonChoice) :=
  comesUp ++ [.go 0 .signal, .go 0 .go, .go 0 .go, .spawn (.client (.direct 204 []) .arriving),
    .go 1 .go, .spawn (.probe .asked)]

theorem refused_after_unready_turnedAway : ∃ team team' : DaemonTeam,
    (daemon config runConfig).run (DaemonTeam.init .init) turnedAway = some team ∧
      (daemon config runConfig).run team [.go 2 .go, .go 2 .go] = some team' ∧
      ∃ outlook, team'.threads[2]? = some (.probe (.answered outlook)) ∧ outlook = .draining := by
  obtain ⟨team, team', hteam, hrefused, hasked, hteam', outlook, hanswered⟩ :
      ∃ team team' : DaemonTeam,
      (daemon config runConfig).run (DaemonTeam.init .init) turnedAway = some team ∧
        team.threads[1]? = some (.client (.direct 204 []) .refused) ∧
        team.threads[2]? = some (.probe .asked) ∧
        (daemon config runConfig).run team [.go 2 .go, .go 2 .go] = some team' ∧
        ∃ outlook, team'.threads[2]? = some (.probe (.answered outlook)) :=
    ⟨_, _, rfl, rfl, rfl, rfl, _, rfl⟩
  exact ⟨team, team', hteam, hteam', outlook, hanswered,
    (refused_after_unready hteam (List.mem_of_getElem? hrefused)).2.2 hteam' hasked hanswered⟩

end Scenario

namespace Scenario

end Scenario

/-! ## The operator API -/

namespace Scenario

end Scenario

end Runs

end Cachic
