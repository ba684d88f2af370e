import Cachic.Lib.BoundedTable
import Cachic.Orchestrator.Programs

/-!
# Read-ahead

Prefetching is the one place where slices are fetched that nobody asked for, so it waits for
a client that is clearly streaming.  `ReadaheadPolicy.observe` keeps, for each object, how
long its requests have followed on one another, and `prefetch` says what to fetch ahead.

The table is bounded: a call that finds it full expires entries, and drops the oldest half if
that was not enough.  The order in which the hash map hands out its entries decides between
entries of one age; it is an argument of every call.

Times are nanoseconds, and a duration between two of them is zero when they are the wrong way
round, as `Instant::duration_since` has it.
-/

namespace Cachic

/-- The last slice of an object, as readahead computes it before it prefetches. -/
def lastSliceOf (cfg : Config) (totalLen : ℕ) : ℕ :=
  min ((totalLen - 1) / cfg.sliceSize) (2 ^ 32 - 1)

namespace Readahead

open BoundedTable

/-- How many consecutive in-order requests before a client is judged to be streaming. -/
def sequentialThreshold : ℕ := 3

/-- Forget a client's access pattern after this long. -/
def patternTtl : ℕ := 60 * 10 ^ 9

/-- Hard cap on tracked objects. -/
def maxTracked : ℕ := 1024

/-- Addition that stops at the largest 32-bit value. -/
def saturatingAdd32 (a b : ℕ) : ℕ := min (a + b) (2 ^ 32 - 1)

/-- What a request's access pattern suggests. -/
inductive Access
  | random
  | sequential
  deriving DecidableEq, Repr

structure Pattern where
  /-- The slice index immediately after the last range served. -/
  nextExpected : ℕ
  consecutive : ℕ
  seen : ℕ
  deriving DecidableEq, Repr

/-- The access patterns of the tracked objects. -/
structure ReadaheadPolicy where
  patterns : Table ObjectId Pattern
  window : ℕ

/-- One call of `observe`: a request for the slices `first` to `last`, when it was made, and the
order in which the table hands out its entries meanwhile. -/
structure Observation where
  object : ObjectId
  first : ℕ
  last : ℕ
  now : ℕ
  order : Arrangement (ObjectId × ℕ) := .stored _

namespace ReadaheadPolicy

/-- `window` is cut down to 32 bits. -/
def new (window : ℕ) : ReadaheadPolicy where
  patterns := ∅
  window := window % 2 ^ 32

def tracked (policy : ReadaheadPolicy) : ℕ := size policy.patterns

/-- Make room in a full table: expire entries first, and drop the oldest half if they were all
fresh. -/
def cleanUp (now : ℕ) (order : Arrangement (ObjectId × ℕ)) (patterns : Table ObjectId Pattern) :
    Table ObjectId Pattern :=
  if maxTracked ≤ size patterns then
    let fresh := retain (fun p => now - p.seen < patternTtl) patterns
    if maxTracked ≤ size fresh then dropOldest Pattern.seen order fresh (maxTracked / 2)
    else fresh
  else patterns

/-- Record a request and classify the access. -/
def observe (policy : ReadaheadPolicy) (call : Observation) : ReadaheadPolicy × Access :=
  let patterns := cleanUp call.now call.order policy.patterns
  let fresh : Pattern :=
    { nextExpected := saturatingAdd32 call.last 1, consecutive := 0, seen := call.now }
  match patterns.lookup call.object with
  | none => ({ policy with patterns := patterns.insert call.object fresh }, .random)
  | some entry =>
      if patternTtl ≤ call.now - entry.seen then
        ({ policy with patterns := patterns.insert call.object fresh }, .random)
      else
        let consecutive :=
          if call.first = entry.nextExpected then saturatingAdd32 entry.consecutive 1 else 0
        let entry : Pattern :=
          { nextExpected := saturatingAdd32 call.last 1, consecutive := consecutive,
            seen := call.now }
        ({ policy with patterns := patterns.insert call.object entry },
          if sequentialThreshold ≤ consecutive then .sequential else .random)

/-- The slices to prefetch beyond `last`, as the list of the range's indices. -/
def prefetch (policy : ReadaheadPolicy) (access : Access) (last lastSlice : ℕ) : List ℕ :=
  if access ≠ .sequential ∨ policy.window = 0 then []
  else
    let start := saturatingAdd32 last 1
    let stop := min (saturatingAdd32 start policy.window) (saturatingAdd32 lastSlice 1)
    if stop ≤ start then [] else List.range' start (stop - start)

/-- After a request was planned: classify it, and say which slices to fetch ahead.  `contains`
is the store's answer for each of them. -/
def maybePrefetch (cfg : Config) (policy : ReadaheadPolicy) (plan : Plan) (now : ℕ)
    (order : Arrangement (ObjectId × ℕ)) (contains : SliceKey → Bool) :
    ReadaheadPolicy × List ℕ :=
  if plan.totalLen = 0 ∨ plan.info.noRanges then (policy, [])
  else
    let span := Range.plan plan.wanted cfg.sliceSize
    let observed := policy.observe
      { object := plan.object, first := span.first, last := span.last, now := now, order := order }
    (observed.1,
      (observed.1.prefetch observed.2 span.last (lastSliceOf cfg plan.totalLen)).filter
        fun index =>
          !contains { object := plan.object, generation := plan.info.generation, index := index })

/-! ## Cleaning up -/

variable {now : ℕ} {order : Arrangement (ObjectId × ℕ)} {patterns : Table ObjectId Pattern}

theorem cleanUp_of_lt (h : size patterns < maxTracked) : cleanUp now order patterns = patterns :=
  if_neg (Nat.not_le.mpr h)

/-- There is room for one more afterwards. -/
theorem size_cleanUp_lt (h : size patterns ≤ maxTracked) :
    size (cleanUp now order patterns) < maxTracked := by
  unfold cleanUp
  split
  · dsimp only
    split
    · next hfull =>
        generalize hfresh : retain (fun p => decide (now - p.seen < patternTtl)) patterns = fresh
          at hfull ⊢
        have hle : size fresh ≤ maxTracked :=
          le_trans (hfresh ▸ size_retain_le _ _) h
        have hdrop : size (dropOldest Pattern.seen order fresh (maxTracked / 2)) + maxTracked / 2 =
            size fresh := size_dropOldest (le_trans (by decide) hfull)
        simp only [maxTracked] at *
        omega
    · next hroom => exact Nat.lt_of_not_le hroom
  · next hroom => exact Nat.lt_of_not_le hroom

/-- Cleaning up only removes. -/
theorem lookup_of_cleanUp {object : ObjectId} {p : Pattern}
    (h : (cleanUp now order patterns).lookup object = some p) :
    patterns.lookup object = some p := by
  unfold cleanUp at h
  split at h
  · dsimp only at h
    split at h
    · exact (lookup_retain.mp (lookup_of_dropOldest h).2).1
    · exact (lookup_retain.mp h).1
  · exact h

/-! ## One call -/

/-- The pattern of an object after a call, from the one before. -/
def nextPattern (entry : Option Pattern) (call : Observation) : Pattern where
  nextExpected := saturatingAdd32 call.last 1
  consecutive :=
    match entry with
    | none => 0
    | some entry =>
        if call.now - entry.seen < patternTtl ∧ call.first = entry.nextExpected then
          saturatingAdd32 entry.consecutive 1
        else 0
  seen := call.now

/-- What a pattern says about the request that completed it. -/
def access (p : Pattern) : Access :=
  if sequentialThreshold ≤ p.consecutive then .sequential else .random

theorem access_eq_sequential_iff {p : Pattern} : access p = .sequential ↔ 3 ≤ p.consecutive := by
  unfold access sequentialThreshold
  split_ifs with h <;> simp [h]

variable (policy : ReadaheadPolicy) (call : Observation)

/-- A call reads and writes the pattern of its own object, after the table was cleaned up. -/
theorem observe_eq :
    policy.observe call =
      let patterns := cleanUp call.now call.order policy.patterns
      let entry := nextPattern (patterns.lookup call.object) call
      ({ policy with patterns := patterns.insert call.object entry }, access entry) := by
  unfold observe
  dsimp only
  cases (cleanUp call.now call.order policy.patterns).lookup call.object with
  | none => rfl
  | some entry =>
      by_cases hold : patternTtl ≤ call.now - entry.seen
      · have hstale : ¬(call.now - entry.seen < patternTtl ∧ call.first = entry.nextExpected) :=
          fun h => Nat.not_lt.mpr hold h.1
        simp only [if_pos hold, nextPattern, if_neg hstale]
        rfl
      · have hfresh : call.now - entry.seen < patternTtl := Nat.lt_of_not_le hold
        simp only [if_neg hold, nextPattern, hfresh, true_and]
        rfl

theorem tracked_observe_le (h : policy.tracked ≤ maxTracked) :
    (policy.observe call).1.tracked ≤ maxTracked := by
  have hroom : size (cleanUp call.now call.order policy.patterns) < maxTracked :=
    size_cleanUp_lt h
  rw [observe_eq]
  exact le_trans (size_insert_le _ _ _) hroom

variable {policy call}

/-- A call on a table with room for its object. -/
theorem observe_of_room (h : policy.tracked < maxTracked) :
    policy.observe call =
      let entry := nextPattern (policy.patterns.lookup call.object) call
      ({ policy with patterns := policy.patterns.insert call.object entry }, access entry) := by
  rw [observe_eq, cleanUp_of_lt h]

/-! ## Many calls -/

variable (policy)

/-- The policy after a sequence of calls. -/
def observeAll (calls : List Observation) : ReadaheadPolicy :=
  calls.foldl (fun policy call => (policy.observe call).1) policy

/-- The classifications that a sequence of calls returns, each with its object. -/
def answers : ReadaheadPolicy → List Observation → List (ObjectId × Access)
  | _, [] => []
  | policy, call :: calls =>
      (call.object, (policy.observe call).2) :: answers (policy.observe call).1 calls

/-- None of the calls finds the table full. -/
def Quiet : ReadaheadPolicy → List Observation → Prop
  | _, [] => True
  | policy, call :: calls => policy.tracked < maxTracked ∧ Quiet (policy.observe call).1 calls

theorem observeAll_append (calls more : List Observation) :
    policy.observeAll (calls ++ more) = (policy.observeAll calls).observeAll more :=
  List.foldl_append

@[simp] theorem window_observeAll (calls : List Observation) :
    (policy.observeAll calls).window = policy.window := by
  induction calls generalizing policy with
  | nil => rfl
  | cons call calls ih =>
      have hcall : (policy.observe call).1.window = policy.window := by rw [observe_eq]
      exact (ih _).trans hcall

/-- **The table stays bounded.** -/
theorem tracked_observeAll_le (h : policy.tracked ≤ maxTracked) (calls : List Observation) :
    (policy.observeAll calls).tracked ≤ maxTracked := by
  induction calls generalizing policy with
  | nil => exact h
  | cons call calls ih => exact ih _ (tracked_observe_le policy call h)

end ReadaheadPolicy

end Readahead

end Cachic
