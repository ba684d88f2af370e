import Cachic.Lib.Team
import Cachic.Services.Fetch

/-!
# The refresh task and its readers

The task sleeps, fetches a list and applies it, for ever.  `LiveServices.apply` is not one
step of it: the list is loaded and compared, the matcher is stored, the list is stored and the
outcome is counted, and between any two of those a request may load the matcher.  Each of them
is one move here.

The process starts one refresh task.  Every request is a reader: `serve` and `splice` load the
matcher once for a request, and a connection makes one request after another.
-/

namespace Cachic

open ActionLang ThreadTeam JsonText Range

/-- What the task and the requests share. -/
structure RefreshState where
  live : LiveServices
  attempts : ℕ
  failed : ℕ

/-- Where the refresh task is. -/
inductive RefreshPlace
  /-- the interval is zero, and the task has returned -/
  | disabled
  | sleeping
  /-- `heard` are the requests of this attempt and their answers -/
  | fetching (heard : List (Event String fun _ => Reply))
      (rest : HttpTask (Except RefreshError DomainList))
  /-- the candidate is the live list, about to be counted -/
  | same (candidate : DomainList)
  /-- the candidate is another list, and its matcher has been built -/
  | built (candidate : DomainList)
  /-- the matcher has been stored, the list has not -/
  | stored (candidate : DomainList)
  /-- both have been stored, about to be counted -/
  | listed (candidate : DomainList)

/-- The refresh task, or a connection with the matchers its requests have loaded. -/
inductive RefreshThread
  | refresher (place : RefreshPlace)
  | reader (loads : List Matcher)

inductive RefreshChoice
  | go
  | reply (answer : Reply)

section Machine

variable (readJson : String → Option Json) (source : RefreshSource)

namespace RefreshPlace

/-- The next step of the task. -/
def move (place : RefreshPlace) (choice : RefreshChoice) (s : RefreshState) :
    Option (RefreshPlace × RefreshState) :=
  match place, choice with
  | .sleeping, .go =>
      some (.fetching [] (source.fetch readJson), { s with attempts := wrapAdd 64 s.attempts 1 })
  | .fetching heard (.act url next), .reply answer =>
      some (.fetching (heard ++ [⟨url, answer⟩]) (next answer), s)
  | .fetching _ (.ret (.error _)), .go =>
      some (.sleeping, { s with failed := wrapAdd 64 s.failed 1 })
  | .fetching _ (.ret (.ok candidate)), .go =>
      if candidate.patternCount = 0 then
        some (.sleeping, { s with live.rejected := wrapAdd 64 s.live.rejected 1 })
      else if s.live.list = candidate then some (.same candidate, s)
      else some (.built candidate, s)
  | .same _, .go => some (.sleeping, { s with live.unchanged := wrapAdd 64 s.live.unchanged 1 })
  | .built candidate, .go =>
      some (.stored candidate, { s with live.matcher := Matcher.build candidate })
  | .stored candidate, .go => some (.listed candidate, { s with live.list := candidate })
  | .listed _, .go => some (.sleeping, { s with live.applied := wrapAdd 64 s.live.applied 1 })
  | _, _ => none

end RefreshPlace

namespace RefreshThread

/-- Connections come at any time. -/
def start : RefreshThread → Bool
  | .reader [] => true
  | _ => false

def move : RefreshThread → RefreshChoice → RefreshState → Option (RefreshThread × RefreshState)
  | .refresher place, choice, s =>
      (place.move readJson source choice s).map fun r => (.refresher r.1, r.2)
  | .reader loads, .go, s => some (.reader (loads ++ [s.live.matcher]), s)
  | _, _, _ => none

end RefreshThread

def refreshing : Machine RefreshState RefreshThread RefreshChoice where
  start := RefreshThread.start
  move := fun _ => RefreshThread.move readJson source

abbrev RefreshTeam := Team RefreshState RefreshThread

/-- A process that has just started with a list: `spawn` has been called. -/
def RefreshTeam.new (list : DomainList) : RefreshTeam where
  shared := { live := .new list, attempts := 0, failed := 0 }
  threads := [.refresher (if source.interval = 0 then .disabled else .sleeping)]

end Machine

/-! ## What a step can do -/

/-- The moves of the refresh task, one rule for each branch of the source. -/
inductive RefreshPlace.Moves (readJson : String → Option Json) (source : RefreshSource)
    (s : RefreshState) : RefreshPlace → RefreshChoice → RefreshPlace → RefreshState → Prop
  | wakes : Moves readJson source s .sleeping .go (.fetching [] (source.fetch readJson))
      { s with attempts := wrapAdd 64 s.attempts 1 }
  | hears {heard : List (Event String fun _ => Reply)} {url : String} {answer : Reply}
      {next : Reply → HttpTask (Except RefreshError DomainList)} :
      Moves readJson source s (.fetching heard (.act url next)) (.reply answer)
        (.fetching (heard ++ [⟨url, answer⟩]) (next answer)) s
  | fails {heard : List (Event String fun _ => Reply)} {e : RefreshError} :
      Moves readJson source s (.fetching heard (.ret (.error e))) .go .sleeping
        { s with failed := wrapAdd 64 s.failed 1 }
  | rejects {heard : List (Event String fun _ => Reply)} {candidate : DomainList}
      (hempty : candidate.patternCount = 0) :
      Moves readJson source s (.fetching heard (.ret (.ok candidate))) .go .sleeping
        { s with live.rejected := wrapAdd 64 s.live.rejected 1 }
  | finds {heard : List (Event String fun _ => Reply)} {candidate : DomainList}
      (husable : candidate.patternCount ≠ 0) (hsame : s.live.list = candidate) :
      Moves readJson source s (.fetching heard (.ret (.ok candidate))) .go
        (.same candidate) s
  | builds {heard : List (Event String fun _ => Reply)} {candidate : DomainList}
      (husable : candidate.patternCount ≠ 0) (hother : s.live.list ≠ candidate) :
      Moves readJson source s (.fetching heard (.ret (.ok candidate))) .go
        (.built candidate) s
  | keeps {candidate : DomainList} :
      Moves readJson source s (.same candidate) .go .sleeping
        { s with live.unchanged := wrapAdd 64 s.live.unchanged 1 }
  | publishes {candidate : DomainList} :
      Moves readJson source s (.built candidate) .go (.stored candidate)
        { s with live.matcher := Matcher.build candidate }
  | lists {candidate : DomainList} :
      Moves readJson source s (.stored candidate) .go (.listed candidate)
        { s with live.list := candidate }
  | counts {candidate : DomainList} :
      Moves readJson source s (.listed candidate) .go .sleeping
        { s with live.applied := wrapAdd 64 s.live.applied 1 }

theorem RefreshPlace.moves_of_move {readJson : String → Option Json} {source : RefreshSource}
    {place place' : RefreshPlace} {choice : RefreshChoice} {s s' : RefreshState}
    (h : place.move readJson source choice s = some (place', s')) :
    place.Moves readJson source s choice place' s' := by
  unfold RefreshPlace.move at h
  split at h
  case h_1 => cases h; exact .wakes
  case h_2 => cases h; exact .hears
  case h_3 => cases h; exact .fails
  case h_4 =>
    split at h
    · next hempty =>
        cases h
        exact .rejects hempty
    · next husable =>
        split at h
        · next hsame =>
            cases h
            exact .finds husable hsame
        · next hother =>
            cases h
            exact .builds husable hother
  case h_5 => cases h; exact .keeps
  case h_6 => cases h; exact .publishes
  case h_7 => cases h; exact .lists
  case h_8 => cases h; exact .counts
  case h_9 => cases h

end Cachic
