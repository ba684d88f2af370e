import Cachic.Orchestrator.Confinement
import Cachic.Properties.Allowlist
import Cachic.Proxy.Dispatch

/-!
# Where a client can lead the process

The `Host` header decides which origin is asked.  A job is confined to its object, its URL and the
headers it forwards (`Phase.Confined`), whatever the process does besides, because identities name
what they were handed out for; and where a job comes from is `licence_of_dispatch`.

The host that is dialled is the one the URL parser finds in the job's URL (`dialledHost`), a
parameter of which the URL standard is assumed.
-/

namespace Cachic

open ActionLang ThreadTeam

/-- The steps a job may take. -/
def Incoming.Own (cfg : Config) : Incoming → Act → Prop
  | .cached _ key url forwarded _ _ _ => Act.Own (cfg.objectId key) url forwarded
  | .direct _ _ => fun _ => False

/-- What is left of a job keeps to them. -/
def Phase.Confined (cfg : Config) (job : Incoming) : Phase → Prop
  | .handling rest => rest.Within (job.Own cfg) Act.Named ∧
      rest.Returns fun result => (job.body cfg result).Within (job.Own cfg) Act.Named
  | .leaving (some body) => body.Within (job.Own cfg) Act.Named
  | .streaming body => body.Within (job.Own cfg) Act.Named
  | _ => True

/-- The action a client's job is about to perform. -/
def Phase.next : Phase → Option Act
  | .handling (.act a _) => some a
  | .streaming (.act a _) => some a
  | _ => none

theorem Incoming.serve_confined (cfg : Config) (job : Incoming) :
    Phase.Confined cfg job (.handling (job.serve cfg)) := by
  cases job with
  | direct status headers => exact ⟨trivial, trivial⟩
  | cached hostname key url forwarded rawRange ifRange isHead =>
      exact ⟨serveHead_own cfg hostname key rawRange ifRange isHead,
        serveHead_body_own cfg hostname key rawRange ifRange isHead⟩

theorem Phase.Confined.released {cfg : Config} {job : Incoming} {body : Option (Task Body)}
    (h : (Phase.leaving body).Confined cfg job) : (Phase.released body).Confined cfg job := by
  cases body with
  | none => trivial
  | some body => exact h

theorem Phase.Confined.drop {cfg : Config} {job : Incoming} {body : Option (Task Body)}
    (h : (Phase.leaving body).Confined cfg job) (d : Drain) :
    (Phase.drop d body).Confined cfg job := by
  unfold Phase.drop
  split
  · exact h
  · exact h.released

/-- A job's own step. -/
theorem Phase.Confined.move {cfg : Config} {job : Incoming} {phase phase' : Phase}
    {choice : HostChoice} {h h' : Host} (hlabelled : h.shared.Labelled)
    (hphase : phase.Confined cfg job) (hmove : phase.move cfg job choice h = some (phase', h')) :
    h'.shared.Labelled ∧ phase'.Confined cfg job := by
  unfold Phase.move at hmove
  split at hmove
  · cases hmove
    refine ⟨hlabelled, ?_⟩
    split <;> trivial
  · obtain ⟨d, -, heq⟩ := Option.map_eq_some_iff.mp hmove
    cases heq
    exact ⟨hlabelled, job.serve_confined cfg⟩
  · obtain ⟨⟨r, s⟩, hexec, heq⟩ := Option.map_eq_some_iff.mp hmove
    cases heq
    obtain ⟨hlabelled', hnamed⟩ := hlabelled.exec hexec
    exact ⟨hlabelled', hphase.1.2 r hnamed, hphase.2 r⟩
  · cases hmove
    refine ⟨hlabelled, .drop ?_ _⟩
    exact hphase.2
  · cases hmove
    refine ⟨hlabelled, .drop ?_ _⟩
    trivial
  · cases hmove
    exact ⟨hlabelled, hphase.released⟩
  · obtain ⟨⟨r, s⟩, hexec, heq⟩ := Option.map_eq_some_iff.mp hmove
    cases heq
    obtain ⟨hlabelled', hnamed⟩ := hlabelled.exec hexec
    exact ⟨hlabelled', hphase.2 r hnamed⟩
  · cases hmove
    exact ⟨hlabelled, trivial⟩
  · cases hmove

/-- What every run of the process keeps of its requests. -/
def HostThread.Confined (cfg : Config) : HostThread → Prop
  | .request job phase => phase.Confined cfg job
  | .drainer _ => True

theorem confined_modular (cfg : Config) :
    (host cfg).Modular (fun h => h.shared.Labelled) fun _ _ t => t.Confined cfg where
  start := by
    intro h tid t hlabelled hstart
    rcases t with ⟨job, phase⟩ | d
    · cases phase <;> trivial
    · trivial
  own := by
    intro h h' tid t t' choice hlabelled hconfined hmove
    rcases t with ⟨job, phase⟩ | d
    · obtain ⟨⟨phase', e⟩, hphase, heq⟩ := Option.map_eq_some_iff.mp hmove
      cases heq
      exact Phase.Confined.move hlabelled hconfined hphase
    · obtain ⟨c, -, hmove⟩ := Option.bind_eq_some_iff.mp hmove
      obtain ⟨⟨d', e⟩, -, heq⟩ := Option.map_eq_some_iff.mp hmove
      cases heq
      exact ⟨hlabelled, trivial⟩
  others := fun _ _ _ _ hother => hother

/-- **A client leads the process only where the list allows.**  In every run, over any directory:
the next step of a request is about its own object; the one origin it may ask is a host that the
list covers; and no credentials of the client go there.  This is for a `Host` whose name a URL
parser finds as it was written (`dialled_host_iff`), and a server that drops its port. -/
theorem client_leads_as_listed {cfg : Config} {lib : RegexLib} {urls : UrlText.UrlLib}
    {server : ServerConfig} {frontend : Frontend} {list : DomainList} {req : ClientRequest}
    {index : ObjectIndex} {store : SliceKey → Option SliceValue} {fresh tid : ℕ}
    {steps : List (Step HostThread HostChoice)} {team : Team Host HostThread} {phase : Phase}
    {a : Act}
    (hlist : frontend.live.matcher = Matcher.build list) (hport : server.allowHostPort = false)
    (htarget : req.target.toList.head? = some '/')
    (hurls : urls.Standard) (hname : AsWritten urls (Matcher.normaliseHost req.host.toList))
    (hrun : (host cfg).run (Host.init (.boot index store fresh)) steps = some team)
    (hclient : team.threads[tid]? = some (.request (req.incoming lib server frontend) phase))
    (hnext : phase.next = some a) :
    ∃ service key url, req.Licence lib server frontend service key url ∧
      a.Own (cfg.objectId key) url (forwardedRequestHeaders req.headers) ∧
      (∃ name, dialledHost urls url = .ok name ∧ ∃ listed ∈ list.services,
        listed.name = service ∧ ∃ pattern ∈ listed.patterns, pattern.Covers name) ∧
      ∀ field ∈ forwardedRequestHeaders req.headers, ∀ name ∈ credentialHeaders,
        eqIgnoreCase field.1 name = false := by
  have hinit : Machine.Holds (fun h : Host => h.shared.Labelled) (fun _ _ t => t.Confined cfg)
      (Host.init (.boot index store fresh)) := ⟨Shared.labelled_boot .., nofun⟩
  have hconfined : phase.Confined cfg (req.incoming lib server frontend) :=
    ((confined_modular cfg).run hinit hrun).thread hclient
  have hown : (req.incoming lib server frontend).Own cfg a := by
    unfold Phase.next at hnext
    split at hnext
    · cases hnext
      exact hconfined.1.1
    · cases hnext
      exact hconfined.1
    · cases hnext
  unfold ClientRequest.incoming at hown
  split at hown
  · exact hown.elim
  · next key url hdispatch =>
      obtain ⟨service, hlicence⟩ := licence_of_dispatch hdispatch
      have hroute := hlicence.route
      rw [hlist, hport] at hroute
      refine ⟨service, key, url, hlicence, hown,
        dialled_host_covered hurls hroute htarget hname, ?_⟩
      intro field hfield name hname
      have hforwarded := (List.mem_filter.mp hfield).2
      simp only [isForwarded, Bool.and_eq_true, Bool.not_eq_true', List.any_eq_false] at hforwarded
      simpa using hforwarded.2 name hname

namespace Scenario

def steamRequest : ClientRequest where
  method := .get
  path := "/depot/a"
  target := "/depot/a"
  headers := [("host", "cdn.steamcontent.com:80"), ("cookie", "id=1")]

def steamServer : ServerConfig where
  hostname := "cache"
  passthroughUnknownHosts := false
  allowHostPort := false

def steamFrontend : Frontend := { live := .new domains, compiled := fun _ => none }

/-- A request for an object that is not known, up to where its origin is looked up. -/
def looksUp : List (ThreadTeam.Step HostThread HostChoice) :=
  [.spawn (.request (steamRequest.incoming literalRegex steamServer steamFrontend) .arriving),
    .go 0 .go, .go 0 .go] ++ List.replicate 4 (.go 0 (.act .go))

/-- The host is looked up without its port. -/
theorem client_leads_as_listed_looksUp : ∃ key url name,
    (Act.resolve "http://cdn.steamcontent.com/depot/a").Own (config.objectId key) url [] ∧
      dialledHost plainUrls url = .ok name ∧
      ∃ listed ∈ domains.services, ∃ pattern ∈ listed.patterns, pattern.Covers name := by
  obtain ⟨team, phase, hteam, hclient, hnext⟩ :
      ∃ team phase, (host config).run (Host.init .init) looksUp = some team ∧
      team.threads[0]? = some
        (.request (steamRequest.incoming literalRegex steamServer steamFrontend) phase) ∧
      phase.next = some (.resolve "http://cdn.steamcontent.com/depot/a") :=
    ⟨_, _, rfl, rfl, rfl⟩
  have hlist : steamFrontend.live.matcher = Matcher.build domains := rfl
  obtain ⟨service, key, url, -, hown, ⟨name, hhost, listed, hlisted, -, hcovers⟩, -⟩ :=
    client_leads_as_listed hlist rfl (by decide) plainUrls_standard
      ⟨List.all_eq_true.mp (by decide), rfl⟩ hteam hclient hnext
  exact ⟨key, url, name, hown, hhost, listed, hlisted, hcovers⟩

end Scenario

end Cachic
