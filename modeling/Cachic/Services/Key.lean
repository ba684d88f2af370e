import Cachic.Lib.Codec
import Cachic.Services.Matcher
import Cachic.Services.Rules

/-!
# Cache keys

`CompiledRule` is a service's rule with its patterns compiled; the regular expressions
themselves are the library's.  `normalise` makes the key a request's object is stored under:
the path as nginx normalises it, with the host before it and the query behind it where the
rule asks for them.
-/

namespace Cachic

open CharText ByteCodec

/-- The normalised cache key of a request. -/
structure CacheKey where
  key : String
  service : String
  deriving DecidableEq, Repr

/-! ## Compiled rules -/

/-- The library of regular expressions: what is wrong with a pattern or with a set of them,
and whether a set matches a path. -/
structure RegexLib where
  patternFault : String → Option String
  setFault : List String → Option String
  isMatch : List String → String → Bool

structure CompileError where
  service : String
  field : String
  pattern : String
  source : String
  deriving DecidableEq, Repr

/-- A rule with its patterns compiled.  A set is known by its patterns. -/
structure CompiledRule where
  keepQuery : Bool
  includeHost : Bool
  upstreamHttps : Bool
  includeSet : Option (List String)
  excludeSet : Option (List String)
  deriving DecidableEq, Repr

namespace CompiledRule

def default : CompiledRule where
  keepQuery := false
  includeHost := false
  upstreamHttps := false
  includeSet := none
  excludeSet := none

/-- Compile the patterns of a field, one by one first so that an error names the pattern. -/
def compileSet (lib : RegexLib) (service field : String) (patterns : List String) :
    Except CompileError (Option (List String)) :=
  if patterns = [] then .ok none
  else
    match patterns.findSome? fun pattern => (lib.patternFault pattern).map fun source =>
        ({ service, field, pattern, source } : CompileError) with
    | some e => .error e
    | none =>
        match lib.setFault patterns with
        | some source =>
            .error { service, field, pattern := ", ".intercalate patterns, source }
        | none => .ok (some patterns)

def compile (lib : RegexLib) (service : String) (rule : ServiceRule) :
    Except CompileError CompiledRule := do
  let includeSet ← compileSet lib service "include_paths" rule.includePaths
  let excludeSet ← compileSet lib service "exclude_paths" rule.excludePaths
  return { keepQuery := rule.keepQuery
           includeHost := rule.includeHost
           upstreamHttps := rule.upstreamHttps
           includeSet, excludeSet }

/-- Whether a path is cached.  What is excluded is not, though it be included. -/
def isCacheable (lib : RegexLib) (rule : CompiledRule) (path : String) : Bool :=
  if rule.excludeSet.any fun set => lib.isMatch set path then false
  else
    match rule.includeSet with
    | some set => lib.isMatch set path
    | none => true

/-- What keeps a path out of the cache: a pattern that excludes it, or patterns to include of
which none matches it. -/
def Stops (lib : RegexLib) (rule : CompiledRule) (path : String) : Prop :=
  (∃ set, rule.excludeSet = some set ∧ lib.isMatch set path = true) ∨
    ∃ set, rule.includeSet = some set ∧ lib.isMatch set path = false

theorem isCacheable_eq_false_iff {lib : RegexLib} {rule : CompiledRule} {path : String} :
    rule.isCacheable lib path = false ↔ rule.Stops lib path := by
  unfold isCacheable Stops
  rcases rule.excludeSet with _ | excluded
  · cases rule.includeSet with
    | none => simp
    | some included => simp
  · cases hmatch : lib.isMatch excluded path with
    | true => simp [hmatch]
    | false =>
        cases rule.includeSet with
        | none => simp [hmatch]
        | some included => simp [hmatch]

end CompiledRule

/-! ## Paths -/

/-- The value of a hexadecimal digit. -/
def hexDigit (b : UInt8) : Option ℕ :=
  if 48 ≤ b.toNat ∧ b.toNat ≤ 57 then some (b.toNat - 48)
  else if 97 ≤ b.toNat ∧ b.toNat ≤ 102 then some (b.toNat - 97 + 10)
  else if 65 ≤ b.toNat ∧ b.toNat ≤ 70 then some (b.toNat - 65 + 10)
  else none

/-- Decode the escapes of a path's bytes; what is not an escape stays. -/
def decodeEscapes : List UInt8 → List UInt8
  | b :: high :: low :: rest =>
      if b = 37 then
        match hexDigit high, hexDigit low with
        | some h, some l => UInt8.ofNat (16 * h + l) :: decodeEscapes rest
        | _, _ => b :: decodeEscapes (high :: low :: rest)
      else b :: decodeEscapes (high :: low :: rest)
  | b :: rest => b :: decodeEscapes rest
  | [] => []

/-- A path that is not text once it is decoded is left as it was. -/
def percentDecode (input : String) : String :=
  if '%' ∉ input.toList then input
  else (fromUtf8 (decodeEscapes (utf8Bytes input))).getD input

/-- The segments of a path with `.` and `..` resolved.  A `..` at the root is dropped. -/
def resolveSegments (segments : List (List Char)) : List (List Char) :=
  segments.foldl (fun kept segment =>
    if segment = [] ∨ segment = ['.'] then kept
    else if segment = ['.', '.'] then kept.dropLast
    else kept ++ [segment]) []

/-- A path as nginx's `$uri` has it.  A slash at the end is kept. -/
def normalisePath (path : String) : String :=
  let decoded := (percentDecode path).toList
  let out := (resolveSegments (decoded.splitOn '/')).flatMap fun segment => '/' :: segment
  String.ofList <|
    if out = [] then ['/']
    else if decoded.getLast? = some '/' then out ++ ['/']
    else out

/-- The path and the query of a request target. -/
def splitTarget (target : String) : String × Option String :=
  match splitOnce '?' target.toList with
  | some (path, query) => (String.ofList path, some (String.ofList query))
  | none => (target, none)

def normalise (service host target : String) (rule : CompiledRule) : CacheKey :=
  let (path, query) := splitTarget target
  let hostPart := if rule.includeHost then Matcher.normaliseHost host.toList else []
  let queryPart :=
    match query with
    | some query => if rule.keepQuery then '?' :: query.toList else []
    | none => []
  { key := String.ofList (hostPart ++ (normalisePath path).toList ++ queryPart)
    service := service }

example : (normalise "steam" "H" "/a//b/../%41?token=1" .default).key = "/a/A" := by decide

/-- What a query adds to a key. -/
def queryPart (keepQuery : Bool) : Option String → List Char
  | some query => if keepQuery then '?' :: query.toList else []
  | none => []

theorem queryPart_false (query : Option String) : queryPart false query = [] := by
  cases query <;> rfl

theorem toList_normalise (service host target : String) (rule : CompiledRule) :
    (normalise service host target rule).key.toList =
      (if rule.includeHost then Matcher.normaliseHost host.toList else []) ++
        (normalisePath (splitTarget target).1).toList ++
          queryPart rule.keepQuery (splitTarget target).2 := by
  unfold normalise queryPart
  rcases splitTarget target with ⟨path, query | query⟩ <;> simp

end Cachic
