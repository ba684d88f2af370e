import Cachic.Lib.Text

/-!
# Request headers and the cache status

A header map is the list of its fields in iteration order.  Names are lower case,
as the HTTP library keeps them.  A value is a string whose characters stand for
the bytes received; `toStr` is the library's test that they are visible ASCII,
and a value that fails it reads as absent.
-/

namespace Cachic

open CharText

/-- Header fields in iteration order. -/
abbrev HeaderMap := List (String × String)

/-- A header value as text, when all of it is visible ASCII. -/
def toStr (value : String) : Option String :=
  if value.toList.all fun c => c = '\t' || (32 ≤ c.toNat && c.toNat < 127) then some value
  else none

/-- The digits of a number are visible. -/
theorem all_visible_decimal (n : ℕ) :
    ((decimal n).all fun c => c = '\t' || (32 ≤ c.toNat && c.toNat < 127)) = true := by
  rw [List.all_eq_true]
  intro c hc
  have hrange := toNat_of_isDigit (isDigit_of_mem_decimal hc)
  simp only [Bool.or_eq_true, Bool.and_eq_true, decide_eq_true_eq]
  omega

/-- Visible text is readable. -/
theorem toStr_ofList {text : List Char}
    (h : (text.all fun c => c = '\t' || (32 ≤ c.toNat && c.toNat < 127)) = true) :
    toStr (String.ofList text) = some (String.ofList text) := by
  refine if_pos ?_
  rw [String.toList_ofList]
  exact h

/-- A number is readable. -/
theorem toStr_decimal (n : ℕ) :
    toStr (String.ofList (decimal n)) = some (String.ofList (decimal n)) :=
  toStr_ofList (all_visible_decimal n)

/-- The first value of a field, when it is readable. -/
def HeaderMap.header (headers : HeaderMap) (name : String) : Option String :=
  (headers.lookup name).bind toStr

/-- ASCII lower case. -/
def asciiLower (text : List Char) : List Char := text.map Char.toLower

/-- Headers that apply to a single transport connection. -/
def hopByHop : List String :=
  ["connection", "keep-alive", "proxy-authenticate", "proxy-authorization", "te",
    "trailer", "transfer-encoding", "upgrade"]

/-- Request headers never passed to an origin. -/
def credentialHeaders : List String := ["authorization", "cookie"]

/-- Headers named by a `Connection` header. -/
def connectionNamed (headers : HeaderMap) : List String :=
  let values := (headers.filter fun field => field.1 = "connection").filterMap fun field =>
    toStr field.2
  let names := values.flatMap fun value =>
    (value.toList.splitOn ',').map fun part => asciiLower (trim part)
  (names.filter fun name => name ≠ []).map String.ofList

def isHopByHop (name : String) (named : List String) : Bool :=
  let lower := String.ofList (asciiLower name.toList)
  hopByHop.contains lower || named.contains lower

/-- `eq_ignore_ascii_case`. -/
def eqIgnoreCase (a b : String) : Bool := asciiLower a.toList = asciiLower b.toList

/-- Whether a field of the client's request is sent on, given the names its
`Connection` headers list. -/
def isForwarded (named : List String) (name : String) : Bool :=
  !isHopByHop name named && !eqIgnoreCase name "host" && !eqIgnoreCase name "range" &&
    !credentialHeaders.any fun credential => eqIgnoreCase name credential

/-- Headers to send upstream. -/
def forwardedRequestHeaders (client : HeaderMap) : HeaderMap :=
  let named := connectionNamed client
  client.filter fun field => isForwarded named field.1

/-- `X-Cache` values. -/
inductive CacheStatus
  | hit
  | miss
  | partialHit
  | bypass
  deriving DecidableEq, Repr

def CacheStatus.asStr : CacheStatus → String
  | .hit => "HIT"
  | .miss => "MISS"
  | .partialHit => "PARTIAL"
  | .bypass => "BYPASS"

/-- Classify from how many of the planned slices were already resident. -/
def CacheStatus.classify (resident total : ℕ) : CacheStatus :=
  if total = 0 || resident = total then .hit
  else if resident = 0 then .miss
  else .partialHit

end Cachic
