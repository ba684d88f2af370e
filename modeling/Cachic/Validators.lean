import Cachic.Lib.Text

/-!
# Validator comparison and `If-Range`

An origin labels the version of an object it is sending with an `ETag`, a
`Last-Modified` date, both, or neither.  Slices of one response may be fetched
hours apart, so they may only be combined when their labels name the same bytes:
`ETag`s are compared strongly, and a weak one equals nothing, not even itself.
-/

namespace Cachic

open CharText

/-- An object's validators, as the origin reported them. -/
structure Validators where
  etag : Option String
  lastModified : Option String
  deriving DecidableEq, Repr

/-- A weak `ETag` names semantically equal entities, not equal bytes. -/
def isWeak (etag : String) : Bool := "W/".toList.isPrefixOf etag.toList

/-- Strong comparison of two `ETag`s. -/
def strongEq (a b : String) : Bool :=
  if isWeak a || isWeak b then false else a == b

namespace Validators

/-- Whether `other` describes the same entity.  An `ETag` decides when either side
has one; `Last-Modified` is the fallback; two silent sides match. -/
def matchesWith (v other : Validators) : Bool :=
  match v.etag, other.etag with
  | some a, some b => strongEq a b
  | some _, none => false
  | none, some _ => false
  | none, none =>
      match v.lastModified, other.lastModified with
      | some a, some b => a == b
      | some _, none => false
      | none, some _ => false
      | none, none => true

/-- Validators that match carry the same `ETag`, and it is not a weak one. -/
theorem etag_eq_of_matches {v other : Validators} (h : v.matchesWith other = true) :
    v.etag = other.etag ∧ ∀ tag ∈ v.etag, isWeak tag = false := by
  unfold matchesWith strongEq at h
  grind

/-- Validators match themselves unless they rest on a weak `ETag`. -/
theorem matches_self_iff {v : Validators} :
    v.matchesWith v = true ↔ ∀ tag ∈ v.etag, isWeak tag = false := by
  unfold matchesWith strongEq
  grind

end Validators

/-- Whether an `If-Range` header permits a partial response. -/
def ifRangeMatches (header : String) (current : Validators) : Bool :=
  let value := trim header.toList
  if value = [] then false
  else if value.head? = some '"' || "W/".toList.isPrefixOf value then
    match current.etag with
    | some etag => strongEq (String.ofList value) etag
    | none => false
  else
    match current.lastModified with
    | some modified => modified == String.ofList value
    | none => false

end Cachic
