import Cachic.Upstream.AddressGuard

/-!
# The upstream resolver

A host name is looked up through the configured servers alone, and of the addresses they
answer only those that pass the guard are handed on.  Both paths to an origin go through
`UpstreamResolver.resolve`: a splice connects to what it returns, and the HTTP client dials
through it.

What the servers answer is up to them and can differ from one lookup to the next, so the
answer is an argument here.
-/

namespace Cachic

structure SocketAddr where
  ip : IpAddr
  port : ℕ
  deriving DecidableEq, Repr

inductive ResolveError
  | noResolvers
  | lookup (host source : String)
  | noAddresses (host : String)
  | refused (host : String) (refusal : Refusal)
  deriving DecidableEq, Repr

/-- A resolver over the given servers.  `parse` is the standard library's reading of an
address literal; nothing depends on which texts it takes for one. -/
structure UpstreamResolver where
  servers : List SocketAddr
  allowPrivate : Bool
  parse : String → Option IpAddr

/-- The standard DNS port. -/
def dnsPort : ℕ := 53

namespace UpstreamResolver

def withServers (servers : List SocketAddr) (allowPrivate : Bool)
    (parse : String → Option IpAddr) : Except ResolveError UpstreamResolver :=
  if servers.isEmpty then .error .noResolvers
  else .ok { servers := servers, allowPrivate := allowPrivate, parse := parse }

def new (servers : List IpAddr) (allowPrivate : Bool) (parse : String → Option IpAddr) :
    Except ResolveError UpstreamResolver :=
  withServers (servers.map fun ip => { ip := ip, port := dnsPort }) allowPrivate parse

/-- The loop over the answered addresses: those that may be used, and the first refusal. -/
def screen (allowPrivate : Bool) (port : ℕ) :
    List IpAddr → List SocketAddr → Option Refusal → List SocketAddr × Option Refusal
  | [], allowed, first => (allowed, first)
  | ip :: rest, allowed, first =>
      match checkAddr ip allowPrivate with
      | .ok () => screen allowPrivate port rest (allowed ++ [{ ip := ip, port := port }]) first
      | .error refusal => screen allowPrivate port rest allowed (first.or (some refusal))

/-- Resolve a host to addresses that are safe to fetch from.  `answer` is what the servers
say to the lookup, if there is one. -/
def resolve (r : UpstreamResolver) (host : String) (port : ℕ)
    (answer : Except String (List IpAddr)) : Except ResolveError (List SocketAddr) :=
  match r.parse host with
  | some ip =>
      -- a literal address needs no lookup, but still needs the guard
      match checkAddr ip r.allowPrivate with
      | .ok () => .ok [{ ip := ip, port := port }]
      | .error refusal => .error (.refused host refusal)
  | none =>
      match answer with
      | .error source => .error (.lookup host source)
      | .ok ips =>
          let (allowed, first) := screen r.allowPrivate port ips [] none
          if ips.isEmpty then .error (.noAddresses host)
          else if allowed.isEmpty then .error (.refused host (first.getD .privateAddress))
          else .ok allowed

/-! ## What is handed on -/

/-- Whether the guard lets an address pass. -/
def passes (r : UpstreamResolver) (ip : IpAddr) : Bool :=
  match checkAddr ip r.allowPrivate with
  | .ok () => true
  | .error _ => false

/-- The addresses that were asked about. -/
def candidates (r : UpstreamResolver) (host : String) (answer : Except String (List IpAddr)) :
    List IpAddr :=
  match r.parse host, answer with
  | some ip, _ => [ip]
  | none, .ok ips => ips
  | none, .error _ => []

theorem screen_allowed (r : UpstreamResolver) (port : ℕ) (ips : List IpAddr)
    (allowed : List SocketAddr) (first : Option Refusal) :
    (screen r.allowPrivate port ips allowed first).1 =
      allowed ++ (ips.filter r.passes).map fun ip => { ip := ip, port := port } := by
  induction ips generalizing allowed first with
  | nil => simp [screen]
  | cons ip rest ih =>
      rw [screen]
      split
      · next hcheck => simp [ih, passes, hcheck]
      · next hcheck => simp [ih, passes, hcheck]

/-- **What the resolver hands on** is exactly the addresses asked about that pass the guard,
in their order and with the port; and it never hands on none. -/
theorem resolve_eq_ok_iff {r : UpstreamResolver} {host : String} {port : ℕ}
    {answer : Except String (List IpAddr)} {addresses : List SocketAddr} :
    r.resolve host port answer = .ok addresses ↔
      addresses = ((r.candidates host answer).filter r.passes).map
        (fun ip => { ip := ip, port := port }) ∧ addresses ≠ [] := by
  unfold resolve candidates
  cases hliteral : r.parse host with
  | some ip =>
      cases hcheck : checkAddr ip r.allowPrivate with
      | ok u =>
          simp only [hcheck, passes, Except.ok.injEq, List.filter_cons, List.filter_nil, if_true,
            List.map_cons, List.map_nil]
          constructor
          · rintro rfl
            exact ⟨rfl, List.cons_ne_nil _ _⟩
          · exact fun h => h.1.symm
      | error refusal => simp [hcheck, passes]
  | none =>
      cases answer with
      | error source => simp
      | ok ips =>
          have hallowed := screen_allowed r port ips [] none
          rw [List.nil_append] at hallowed
          simp only [← hallowed]
          cases ips with
          | nil => simp [screen]
          | cons ip rest =>
              cases hkept : (screen r.allowPrivate port (ip :: rest) [] none).1 with
              | nil => simp
              | cons a more =>
                  simp only [List.isEmpty_cons, Bool.false_eq_true, if_false, Except.ok.injEq]
                  constructor
                  · rintro rfl
                    exact ⟨rfl, List.cons_ne_nil _ _⟩
                  · exact fun h => h.1.symm

theorem passes_iff {r : UpstreamResolver} {ip : IpAddr} :
    r.passes ip = true ↔ checkAddr ip r.allowPrivate = .ok () := by
  unfold passes
  split
  · next h => simp [h]
  · next h => simp [h]

/-- Every address handed on was asked about, has passed the guard and has the port. -/
theorem passed_of_resolve {r : UpstreamResolver} {host : String} {port : ℕ}
    {answer : Except String (List IpAddr)} {addresses : List SocketAddr}
    (h : r.resolve host port answer = .ok addresses) :
    ∀ a ∈ addresses, a.ip ∈ r.candidates host answer ∧
      checkAddr a.ip r.allowPrivate = .ok () ∧ a.port = port := by
  intro a ha
  rw [(resolve_eq_ok_iff.mp h).1, List.mem_map] at ha
  obtain ⟨ip, hip, rfl⟩ := ha
  rw [List.mem_filter, passes_iff] at hip
  exact ⟨hip.1, hip.2, rfl⟩

end UpstreamResolver

end Cachic
