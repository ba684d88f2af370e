import Cachic.Headers

/-!
# Upstream answers

The pure half of the upstream client: what an origin's answer to one request is
made of, how `fetch_range` and `fetch_stream` judge it, and what the orchestrator
reads off it.  The requests themselves are actions of
`Cachic.Orchestrator.Actions`.
-/

namespace Cachic

open CharText

/-- A transport failure, with the three questions the client asks of it. -/
structure TransportError where
  isConnect : Bool
  isTimeout : Bool
  isRequest : Bool
  text : String
  deriving DecidableEq, Repr

/-- An origin's answer as it arrives: status line and headers, the body length the
transport announces, the body chunk by chunk, and whether the connection failed
after the last chunk. -/
structure RawResponse where
  status : ℕ
  headers : HeaderMap
  declared : Option ℕ
  chunks : List (List UInt8)
  failure : Option TransportError
  deriving DecidableEq, Repr

inductive UpstreamError
  | bodyTooLarge (url : String) (limit : ℕ)
  | resolve (text : String)
  | request (url : String) (source : TransportError)
  | status (url : String) (status : ℕ)
  | redirect (url location : String)
  deriving DecidableEq, Repr

/-- One upstream response, with the parts the orchestrator needs. -/
structure UpstreamResponse where
  status : ℕ
  headers : HeaderMap
  body : List UInt8
  deriving DecidableEq, Repr

namespace UpstreamResponse

variable (response : UpstreamResponse)

def header (name : String) : Option String := response.headers.header name

/-- `Content-Length`, when the origin declared one. -/
def contentLength : Option ℕ :=
  (response.header "content-length").bind fun value =>
    parseUnsigned (2 ^ 64) (trim value.toList)

/-- Total object length from a `Content-Range: bytes a-b/total`.  Only the text
after the last slash is read. -/
def contentRangeTotal : Option ℕ := do
  let value ← response.header "content-range"
  let (_, total) ← rsplitOnce '/' value.toList
  parseUnsigned (2 ^ 64) (trim total)

end UpstreamResponse

/-- A raw response without its body. -/
def RawResponse.head (raw : RawResponse) : UpstreamResponse where
  status := raw.status
  headers := raw.headers
  body := []

variable {url : String} {raw : RawResponse} {config : ClientConfig} {start stop limit : ℕ}
  {response : UpstreamResponse} {body : List UInt8} {chunks : List (List UInt8)}
  {failure : Option TransportError}

theorem contentRangeTotal_head (h : response.headers = raw.headers) :
    raw.head.contentRangeTotal = response.contentRangeTotal := by
  simp only [UpstreamResponse.contentRangeTotal, UpstreamResponse.header, RawResponse.head, h]

theorem contentLength_head (h : response.headers = raw.headers) :
    raw.head.contentLength = response.contentLength := by
  simp only [UpstreamResponse.contentLength, UpstreamResponse.header, RawResponse.head, h]

def isSuccess (status : ℕ) : Bool := 200 ≤ status && status < 300

def isRedirection (status : ℕ) : Bool := 300 ≤ status && status < 400

def isServerError (status : ℕ) : Bool := 500 ≤ status && status < 600

/-- The limits the client was built with. -/
structure ClientConfig where
  retries : ℕ
  maxBodyBytes : ℕ
  deriving DecidableEq, Repr

/-- Slack allowed over the requested range before a 206 is refused. -/
def rangeSlack : ℕ := 64 * 1024

def ClientConfig.default : ClientConfig where
  retries := 1
  maxBodyBytes := 64 * 1024 * 1024

/-- Addition that stops at the largest 64-bit value. -/
def saturatingAdd (a b : ℕ) : ℕ := min (a + b) (2 ^ 64 - 1)

/-- The largest body `fetch_range` will buffer for a range. -/
def ClientConfig.bodyLimit (config : ClientConfig) (start stop : ℕ) : ℕ :=
  let expected := saturatingAdd (stop - start) 1
  min (saturatingAdd expected rangeSlack) config.maxBodyBytes

/-- A body no longer than its range and the ceiling is within the limit. -/
theorem ClientConfig.le_bodyLimit {n : ℕ} (hrange : n ≤ stop + 1 - start)
    (hceiling : n ≤ config.maxBodyBytes) (hword : n < 2 ^ 64) :
    n ≤ config.bodyLimit start stop := by
  simp only [bodyLimit, saturatingAdd]
  omega

/-- Buffer a body chunk by chunk, refusing to pass the limit. -/
def readBody (url : String) (limit : ℕ) (failure : Option TransportError) :
    List UInt8 → List (List UInt8) → Except UpstreamError (List UInt8)
  | body, [] =>
      match failure with
      | none => .ok body
      | some source => .error (.request url source)
  | body, chunk :: rest =>
      if body.length + chunk.length > limit then .error (.bodyTooLarge url limit)
      else readBody url limit failure (body ++ chunk) rest

/-- A redirect or any other answer that is not a success. -/
def refusal (url : String) (response : RawResponse) : Option UpstreamError :=
  if isRedirection response.status then
    some (.redirect url ((response.headers.header "location").getD ""))
  else if !isSuccess response.status then some (.status url response.status)
  else none

/-- What `fetch_range` makes of one answer.  The body of anything but a 206 is not
read. -/
def receive (config : ClientConfig) (url : String) (start stop : ℕ)
    (response : RawResponse) : Except UpstreamError UpstreamResponse :=
  match refusal url response with
  | some e => .error e
  | none =>
      if response.status ≠ 206 then
        -- the origin ignored the range; the caller needs the head only
        .ok { status := response.status, headers := response.headers, body := [] }
      else
        let limit := config.bodyLimit start stop
        if response.declared.any fun declared => declared > limit then
          .error (.bodyTooLarge url limit)
        else
          (readBody url limit response.failure [] response.chunks).map fun body =>
            { status := response.status, headers := response.headers, body := body }

/-! ## What was received -/

/-- A buffered body is the concatenation of the chunks. -/
theorem readBody_ok {result : List UInt8}
    (h : readBody url limit failure body chunks = .ok result) :
    result = body ++ chunks.flatten ∧ failure = none := by
  induction chunks generalizing body with
  | nil =>
      cases failure with
      | none =>
          obtain rfl : body = result := by simpa [readBody] using h
          simp
      | some source => simp [readBody] at h
  | cons chunk rest ih =>
      rw [readBody] at h
      split at h
      · cases h
      · obtain ⟨rfl, hnone⟩ := ih h
        simp [hnone]

/-- A body within the limit is buffered whole. -/
theorem readBody_of_le (h : body.length + chunks.flatten.length ≤ limit) :
    readBody url limit none body chunks = .ok (body ++ chunks.flatten) := by
  induction chunks generalizing body with
  | nil => simp [readBody]
  | cons chunk rest ih =>
      rw [List.flatten_cons, List.length_append] at h
      have hchunk : ¬ body.length + chunk.length > limit := by omega
      have hrest : (body ++ chunk).length + rest.flatten.length ≤ limit := by
        rw [List.length_append]
        omega
      rw [readBody, if_neg hchunk, ih hrest, List.flatten_cons, List.append_assoc]

/-- What is not refused is a success. -/
theorem isSuccess_of_refusal (h : refusal url raw = none) :
    isSuccess raw.status = true := by
  unfold refusal at h
  grind

/-- What a received response tells about the raw one: it keeps status and headers,
the status is a success, and the body is the whole body of a 206 and nothing
otherwise. -/
theorem receive_ok (h : receive config url start stop raw = .ok response) :
    response.status = raw.status ∧ response.headers = raw.headers ∧
      isSuccess raw.status = true ∧
      response.body = if raw.status = 206 then raw.chunks.flatten else [] := by
  unfold receive at h
  cases hrefusal : refusal url raw with
  | some e => simp [hrefusal] at h
  | none =>
      simp only [hrefusal] at h
      by_cases hstatus : raw.status = 206
      · simp only [hstatus, ne_eq, not_true_eq_false, if_false] at h
        split at h
        · cases h
        · cases hbody : readBody url (config.bodyLimit start stop) raw.failure [] raw.chunks with
          | error e => simp [hbody, Except.map] at h
          | ok body =>
              obtain ⟨rfl, -⟩ := readBody_ok hbody
              simp only [hbody, Except.map, List.nil_append, Except.ok.injEq] at h
              subst h
              simp [hstatus, isSuccess]
      · simp only [ne_eq, hstatus, not_false_eq_true, if_true, Except.ok.injEq] at h
        subst h
        simp [hstatus, isSuccess_of_refusal hrefusal]

/-- A 206 that broke off is not received. -/
theorem failure_of_receive_ok (h : receive config url start stop raw = .ok response)
    (h206 : raw.status = 206) :
    raw.failure = none := by
  unfold receive at h
  cases hrefusal : refusal url raw with
  | some e => simp [hrefusal] at h
  | none =>
      simp only [hrefusal, h206, ne_eq, not_true_eq_false, if_false] at h
      split at h
      · cases h
      · cases hbody : readBody url (config.bodyLimit start stop) raw.failure [] raw.chunks with
        | error e => simp [hbody, Except.map] at h
        | ok body => exact (readBody_ok hbody).2

theorem readBody_length_le {result : List UInt8}
    (h : readBody url limit failure body chunks = .ok result) (hbody : body.length ≤ limit) :
    result.length ≤ limit := by
  induction chunks generalizing body with
  | nil =>
      obtain ⟨rfl, -⟩ := readBody_ok h
      simpa using hbody
  | cons chunk rest ih =>
      rw [readBody] at h
      split at h
      · cases h
      · apply ih h
        rw [List.length_append]
        omega

/-- No body over the ceiling is received. -/
theorem receive_length_le (h : receive config url start stop raw = .ok response) :
    response.body.length ≤ config.maxBodyBytes := by
  unfold receive at h
  split at h
  · cases h
  · split at h
    · cases h
      exact Nat.zero_le _
    · dsimp only at h
      split at h
      · cases h
      · cases hbody : readBody url (config.bodyLimit start stop) raw.failure [] raw.chunks with
        | error e => simp [hbody, Except.map] at h
        | ok body =>
            simp only [hbody, Except.map, Except.ok.injEq] at h
            subst h
            exact le_trans (readBody_length_le hbody (Nat.zero_le _)) (min_le_right _ _)

theorem readBody_error {e : UpstreamError} (h : readBody url limit failure body chunks = .error e) :
    e = .bodyTooLarge url limit ∨ ∃ source, e = .request url source := by
  induction chunks generalizing body with
  | nil =>
      cases failure with
      | none => cases h
      | some source =>
          cases h
          exact .inr ⟨source, rfl⟩
  | cons chunk rest ih =>
      rw [readBody] at h
      split at h
      · cases h
        exact .inl rfl
      · exact ih h

/-- Once an answer is not refused, only its body can be at fault. -/
theorem receive_error {e : UpstreamError} (hrefusal : refusal url raw = none)
    (h : receive config url start stop raw = .error e) :
    e = .bodyTooLarge url (config.bodyLimit start stop) ∨ ∃ source, e = .request url source := by
  unfold receive at h
  simp only [hrefusal] at h
  split at h
  · cases h
  · split at h
    · cases h
      exact .inl rfl
    · cases hbody : readBody url (config.bodyLimit start stop) raw.failure [] raw.chunks with
      | ok body => simp [hbody, Except.map] at h
      | error e' =>
          simp only [hbody, Except.map, Except.error.injEq] at h
          exact h ▸ readBody_error hbody

/-- A declared length within the limit is let through. -/
theorem declared_any_gt_of_le {declared : Option ℕ} (h : ∀ n ∈ declared, n ≤ limit) :
    (declared.any fun n => decide (n > limit)) = false := by
  cases declared with
  | none => rfl
  | some n => simpa using h n rfl

/-- A 206 whose body fits the limit is received whole. -/
theorem receive_206 (hstatus : raw.status = 206) (hfailure : raw.failure = none)
    (hdeclared : ∀ n ∈ raw.declared, n ≤ config.bodyLimit start stop)
    (hbody : raw.chunks.flatten.length ≤ config.bodyLimit start stop) :
    receive config url start stop raw =
      .ok { status := 206, headers := raw.headers, body := raw.chunks.flatten } := by
  have hrefusal : refusal url raw = none := by
    simp [refusal, hstatus, isRedirection, isSuccess]
  have hany := declared_any_gt_of_le hdeclared
  have hread : readBody url (config.bodyLimit start stop) none [] raw.chunks =
      .ok ([] ++ raw.chunks.flatten) := readBody_of_le (by simpa using hbody)
  rw [receive, hrefusal, hfailure]
  simp only [hstatus, ne_eq, not_true_eq_false, if_false, hany, Bool.false_eq_true, hread]
  rfl

end Cachic
