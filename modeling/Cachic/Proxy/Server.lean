import Cachic.Orchestrator.Programs
import Cachic.Services.Matcher

/-!
# Answering a request

`upstreamUrl` is the first decision of `serve`: which service a host belongs to, and the
URL its objects are fetched from.  `serve` goes on from the point where the
object's key and URL are known: plan, resolve `If-Range`, write the head, and send
the slices.  The body is a stream, so a failure after the head does not take back
what was sent; `Body` keeps both.

The source starts up to a read-ahead window of slices at once and sends them in
index order.  Here they are fetched in that order; `Body.ofSlices` is the sending
alone, for slices that were fetched by any schedule.
-/

namespace Cachic

open Range Tiling ActionLang

/-- The service a request's host belongs to and the URL to fetch its target from;
`none` for a host no service matches.  `upstreamHttps` is the service's rule. -/
def upstreamUrl (matcher : Matcher) (allowHostPort : Bool) (upstreamHttps : String → Bool)
    (host target : String) : Option (String × String) := do
  let service ← matcher.serviceFor host.toList
  let scheme := if upstreamHttps service then "https" else "http"
  let upstreamHost :=
    if allowHostPort then host.toList else Matcher.normaliseHost host.toList
  return (service,
    String.ofList (scheme.toList ++ "://".toList ++ upstreamHost ++ target.toList))

/-- A streamed body: the bytes sent, and what broke the stream off. -/
structure Body where
  sent : List UInt8
  failure : Option OrchestratorError
  deriving DecidableEq, Repr

structure Response where
  status : ℕ
  headers : HeaderMap
  body : Body
  deriving DecidableEq, Repr

namespace Body

def empty : Body := { sent := [], failure := none }

/-- Send some bytes and go on. -/
def send (bytes : List UInt8) (rest : Body) : Body := { rest with sent := bytes ++ rest.sent }

def fail (e : OrchestratorError) : Body := { sent := [], failure := some e }

end Body

/-- The part of one slice the response carries.  A slice too short for it is
reported as such. -/
def piece (cfg : Config) (plan : Plan) (url : String) (index : ℕ) (value : SliceValue) :
    Except OrchestratorError (List UInt8) :=
  let window := plan.window cfg index
  match value.payloadWindow window with
  | .ok bytes => .ok bytes
  | .error _ => .error (.shortSlice url index (window.2 - window.1) value.payload.length)

/-- Send the slices of a plan, each as it was fetched. -/
def Body.ofSlices (cfg : Config) (plan : Plan) (url : String) (value : ℕ → SliceValue) :
    List ℕ → Body
  | [] => .empty
  | index :: rest =>
      match piece cfg plan url index (value index) with
      | .error e => .fail e
      | .ok bytes => .send bytes (ofSlices cfg plan url value rest)

/-- The slices that were started ahead of one that failed run on, and nobody waits for
them. -/
def runOn (cfg : Config) (plan : Plan) (url : String) (headers : HeaderMap) : List ℕ → Task Unit
  | [] => return ()
  | index :: rest => do
      let _ ← slice cfg plan url headers index
      runOn cfg plan url headers rest

/-- Fetch and send the slices of a plan.  Those in the read-ahead window are fetched at once;
here one after another, and where the body breaks off the others of the window follow. -/
def sendSlices (cfg : Config) (plan : Plan) (url : String) (headers : HeaderMap) :
    List ℕ → Task Body
  | [] => return .empty
  | index :: rest => do
      let ahead := rest.take (cfg.readahead - 1)
      match ← slice cfg plan url headers index with
      | .error e =>
          runOn cfg plan url headers ahead
          return .fail e
      | .ok value =>
          match piece cfg plan url index value with
          | .error e =>
              runOn cfg plan url headers ahead
              return .fail e
          | .ok bytes =>
              let body ← sendSlices cfg plan url headers rest
              return .send bytes body

/-! ## The head -/

/-- Whether a text can be sent as a header value. -/
def headerValueOk (value : String) : Bool :=
  value.toList.all fun c => c = '\t' || (32 ≤ c.toNat && c.toNat ≠ 127)

/-- An optional header, left out when its value cannot be sent. -/
def optionalHeader (name : String) (value : Option String) : HeaderMap :=
  match value with
  | some value => if headerValueOk value then [(name, value)] else []
  | none => []

/-- The number of body bytes a plan announces. -/
def Plan.bodyLen (plan : Plan) : ℕ := if plan.totalLen = 0 then 0 else plan.wanted.len

/-- The `Content-Range` of a plan that answers a range. -/
def Plan.contentRange (plan : Plan) : HeaderMap :=
  if plan.isPartial && plan.totalLen > 0 then
    let start := plan.wanted.start
    let stop := plan.wanted.stop
    let total := plan.totalLen
    [("content-range", s!"bytes {start}-{stop}/{total}")]
  else []

/-- The head of a plan's response. -/
def Plan.headers (hostname : String) (plan : Plan) : HeaderMap :=
  [("content-length", toString plan.bodyLen), ("accept-ranges", "bytes"),
    ("x-cache", plan.cacheStatus.asStr), ("x-lancache-processed-by", hostname),
    ("x-cachic-service", plan.service)] ++ plan.contentRange ++
    optionalHeader "content-type" plan.info.contentType ++
    optionalHeader "etag" plan.info.etag ++
    optionalHeader "last-modified" plan.info.lastModified

/-- The answer to a range no byte of the object lies in. -/
def unsatisfiableResponse (hostname : String) (totalLen : ℕ) : Response where
  status := 416
  headers := [("content-range", s!"bytes */{totalLen}"), ("x-lancache-processed-by", hostname)]
  body := .empty

/-! ## Serving -/

/-- Send what was planned. -/
def respond (cfg : Config) (hostname : String) (plan : Plan) (url : String)
    (forwarded : HeaderMap) (isHead : Bool) : Task Response := do
  if isHead || plan.bodyLen = 0 then
    return { status := plan.status, headers := plan.headers hostname, body := .empty }
  else
    let body ← sendSlices cfg plan url forwarded (indices cfg plan)
    return { status := plan.status, headers := plan.headers hostname, body := body }

/-- Whether an `If-Range` asks for the whole object instead of the range. -/
def ifRangeFails (ifRange : Option String) (plan : Plan) : Bool :=
  match ifRange with
  | some header => !ifRangeMatches header plan.info.validators
  | none => false

/-- Serve a GET or HEAD of a cached object.  The source also calls `maybe_prefetch` once it has
planned (`Readahead.maybePrefetch`): that starts tasks of their own, of which the response
sees nothing, and in `Process` they are slice jobs like any other.  So are the tasks of a body
that was dropped. -/
def serve (cfg : Config) (hostname : String) (key : CacheKey) (url : String)
    (forwarded : HeaderMap) (rawRange ifRange : Option String) (isHead : Bool) :
    Task (Except OrchestratorError Response) := do
  match ← plan cfg key url forwarded rawRange with
  | .error (.unsatisfiable totalLen) => return .ok (unsatisfiableResponse hostname totalLen)
  | .error e => return .error e
  | .ok first =>
      if ifRangeFails ifRange first then
        -- the whole object, planned anew
        match ← plan cfg key url forwarded none with
        | .error e => return .error e
        | .ok second =>
            let response ← respond cfg hostname second url forwarded isHead
            return .ok response
      else
        let response ← respond cfg hostname first url forwarded isHead
        return .ok response

/-! ## What is sent -/

/-- Slices that all have their piece make a complete body. -/
theorem Body.ofSlices_of_ok {cfg : Config} {plan : Plan} {url : String} {value : ℕ → SliceValue}
    {bytes : ℕ → List UInt8} {wanted : List ℕ}
    (h : ∀ i ∈ wanted, piece cfg plan url i (value i) = .ok (bytes i)) :
    Body.ofSlices cfg plan url value wanted =
      { sent := (wanted.map bytes).flatten, failure := none } := by
  induction wanted with
  | nil => rfl
  | cons i rest ih =>
      have hrest := ih fun j hj => h j (List.mem_cons_of_mem i hj)
      rw [Body.ofSlices, h i List.mem_cons_self]
      simp only [hrest, Body.send, List.map_cons, List.flatten_cons]

section Exact

variable {cfg : Config} {plan : Plan} {url : String} {content : List UInt8}

/-- A slice that is exactly its tile has its piece. -/
theorem piece_of_tile {value : SliceValue} {i : ℕ}
    (hvalue : value.payload = tile content cfg.sliceSize i)
    (hlo : plan.wanted.start < (i + 1) * cfg.sliceSize) (hhi : i * cfg.sliceSize ≤ plan.wanted.stop)
    (hstop : plan.wanted.stop < content.length) (hword : plan.wanted.stop + 1 < 2 ^ 64)
    (horder : plan.wanted.start ≤ plan.wanted.stop) :
    piece cfg plan url i value =
      .ok (window (tile content cfg.sliceSize i) (plan.window cfg i).1 (plan.window cfg i).2) := by
  have hmul : (i + 1) * cfg.sliceSize = i * cfg.sliceSize + cfg.sliceSize := by ring
  have hlen : (tile content cfg.sliceSize i).length =
      min ((i + 1) * cfg.sliceSize) content.length - i * cfg.sliceSize := by
    rw [tile, length_window]
  have hwindow : plan.window cfg i = (plan.wanted.start - i * cfg.sliceSize,
      min (plan.wanted.stop + 1 - i * cfg.sliceSize) cfg.sliceSize) := payloadWindow_eq hhi hword
  have hfits : ¬ (plan.wanted.start - i * cfg.sliceSize >
      min (plan.wanted.stop + 1 - i * cfg.sliceSize) cfg.sliceSize) := by omega
  have hinside : ¬ (min (plan.wanted.stop + 1 - i * cfg.sliceSize) cfg.sliceSize >
      (tile content cfg.sliceSize i).length) := by omega
  simp only [piece, hwindow, SliceValue.payloadWindow, hvalue, hfits, hinside, decide_false,
    Bool.or_self, Bool.false_eq_true, if_false]

/-- **Exact slices make the exact body**: the bytes at the wanted positions, each
once and in order. -/
theorem Body.ofSlices_exact {value : ℕ → SliceValue} (htotal : plan.totalLen = content.length)
    (hwanted : plan.totalLen ≠ 0 → plan.wanted.start ≤ plan.wanted.stop ∧
      plan.wanted.stop < plan.totalLen)
    (hcount : content.length ≤ 2 ^ 32 * cfg.sliceSize)
    (hvalue : ∀ i ∈ indices cfg plan, (value i).payload = tile content cfg.sliceSize i) :
    Body.ofSlices cfg plan url value (indices cfg plan) =
      { sent := window content plan.wanted.start (plan.wanted.stop + 1), failure := none } := by
  by_cases hempty : plan.totalLen = 0
  · have hnil : content = [] := List.length_eq_zero_iff.mp (htotal.symm.trans hempty)
    simp [indices, hempty, Body.ofSlices, Body.empty, hnil, window]
  · obtain ⟨horder, hstop⟩ := hwanted hempty
    rw [htotal] at hstop
    have hpos := cfg.sliceSize_pos
    have hsize := cfg.sliceSize_valid.atMost
    have hlast : plan.wanted.stop / cfg.sliceSize < 2 ^ 32 := by
      rw [Nat.div_lt_iff_lt_mul hpos]
      omega
    have hword : plan.wanted.stop + 1 < 2 ^ 64 := by
      have := Nat.mul_le_mul_left (2 ^ 32) hsize
      omega
    have hindices : indices cfg plan = (Range.plan plan.wanted cfg.sliceSize).indices :=
      if_neg hempty
    have hpieces : ∀ i ∈ indices cfg plan, piece cfg plan url i (value i) =
        .ok (window (tile content cfg.sliceSize i) (plan.window cfg i).1
          (plan.window cfg i).2) := by
      intro i hi
      have hi' := hi
      rw [hindices, indices_plan hpos horder hlast, List.mem_range'_1] at hi'
      have hlo : plan.wanted.start < (i + 1) * cfg.sliceSize := by
        rw [← Nat.div_lt_iff_lt_mul hpos]
        omega
      have hhi : i * cfg.sliceSize ≤ plan.wanted.stop := by
        rw [← Nat.le_div_iff_mul_le hpos]
        omega
      exact piece_of_tile (hvalue i hi) hlo hhi hstop hword horder
    rw [Body.ofSlices_of_ok hpieces, hindices]
    simp only [Plan.window, flatten_payloadWindows hpos horder hlast hword]

end Exact

end Cachic
