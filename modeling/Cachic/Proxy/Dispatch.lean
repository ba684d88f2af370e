import Cachic.Proxy.Handle
import Cachic.Services.Refresh

/-!
# From a request to a job

`dispatch` is `serve` up to the point where the cache is asked: the heartbeat, the methods and
the hosts that are not served, and for the rest the object's key and the URL it is fetched from.
`ClientRequest.incoming` is the job the process makes of it.
-/

namespace Cachic

inductive Method
  | get
  | head
  | other (name : String)
  deriving DecidableEq, Repr

/-- A request as the HTTP library hands it over; `target` is the path and the query. -/
structure ClientRequest where
  method : Method
  path : String
  target : String
  headers : HeaderMap
  deriving DecidableEq, Repr

def ClientRequest.host (req : ClientRequest) : String := (req.headers.header "host").getD ""

/-- The settings of the server that `serve` reads. -/
structure ServerConfig where
  hostname : String
  passthroughUnknownHosts : Bool
  allowHostPort : Bool
  deriving DecidableEq, Repr

/-- What a request comes to before the cache is asked. -/
inductive Dispatch
  | direct (status : ℕ) (headers : HeaderMap) (body : String)
  | cached (key : CacheKey) (url : String)
  deriving DecidableEq, Repr

namespace Dispatch

def text (status : ℕ) (message : String) : Dispatch :=
  .direct status [("content-type", "text/plain; charset=utf-8")] message

/-- The answer the prefill tools look for. -/
def heartbeat (hostname : String) : Dispatch :=
  .direct 204 ([("access-control-allow-origin", "*"), ("access-control-allow-headers", "*"),
    ("access-control-expose-headers", "*")] ++
    optionalHeader "x-lancache-processed-by" (some hostname)) ""

end Dispatch

def isHeartbeat (path : String) : Bool := path = "/lancache-heartbeat"

section Requests

variable (lib : RegexLib) (server : ServerConfig) (frontend : Frontend) (req : ClientRequest)

def dispatch : Dispatch :=
  if isHeartbeat req.path then .heartbeat server.hostname
  else if req.method ≠ .get ∧ req.method ≠ .head then .text 405 "cachic caches GET and HEAD\n"
  else
    match frontend.route lib req.host req.path req.target with
    | .unmatched =>
        if server.passthroughUnknownHosts then
          .text 501 "passthrough is not implemented until TASK-18\n"
        else .text 404 "no cached service matches this host\n"
    | .uncached _ => .text 501 "uncached pass-through is not implemented until TASK-18\n"
    | .cached _ key scheme =>
        let upstreamHost :=
          if server.allowHostPort then req.host.toList else Matcher.normaliseHost req.host.toList
        .cached key
          (String.ofList (scheme.toList ++ "://".toList ++ upstreamHost ++ req.target.toList))

/-- The request as the process takes it. -/
def ClientRequest.incoming : Incoming :=
  match dispatch lib server frontend req with
  | .direct status headers _ => .direct status headers
  | .cached key url =>
      .cached server.hostname key url (forwardedRequestHeaders req.headers)
        (req.headers.header "range") (req.headers.header "if-range") (req.method = .head)

/-- The request may be served from the cache: for its service, under this key, from this URL. -/
structure ClientRequest.Licence (service : String) (key : CacheKey) (url : String) : Prop where
  method : req.method = .get ∨ req.method = .head
  route : upstreamUrl frontend.live.matcher server.allowHostPort
    (fun name => (frontend.ruleFor name).upstreamHttps) req.host req.target = some (service, url)
  cacheable : (frontend.ruleFor service).isCacheable lib req.path = true
  key : key = normalise service req.host req.target (frontend.ruleFor service)

variable {lib server frontend req}

/-- What is asked of the cache is licensed. -/
theorem licence_of_dispatch {key : CacheKey} {url : String}
    (h : dispatch lib server frontend req = .cached key url) :
    ∃ service, req.Licence lib server frontend service key url := by
  unfold dispatch at h
  split at h
  · cases h
  split at h
  · cases h
  next hmethod =>
  have hserved : req.method = .get ∨ req.method = .head := by
    by_contra hother
    exact hmethod (not_or.mp hother)
  unfold Frontend.route at h
  cases hservice : frontend.live.matcher.serviceFor req.host.toList with
  | none =>
      rw [hservice] at h
      dsimp only at h
      split at h <;> cases h
  | some service =>
      rw [hservice] at h
      dsimp only [Frontend.decideUnder] at h
      cases hcacheable : (frontend.ruleFor service).isCacheable lib req.path with
      | false =>
          rw [hcacheable] at h
          cases h
      | true =>
          rw [hcacheable] at h
          cases h
          refine ⟨service, hserved, ?_, hcacheable, rfl⟩
          rw [upstreamUrl, hservice]
          rfl

end Requests

end Cachic
