import Cachic.Services.RefreshTask

/-!
# What a refresh can and cannot do

`refresh_linearised` is what lets a refresh run beside the requests: however its steps and
theirs interleave, every request is decided under the list the process started with or one that
was fetched whole, and never under an older list than the one before it.  `refresh_accounting`
says what became of the attempts.
-/

namespace Cachic

open ActionLang ThreadTeam JsonText CharText Range

/-! ## One writer -/

section Linearised

variable {readJson : String → Option Json} {source : RefreshSource} {first : DomainList}
  {replies : List Reply}
  {lists : List DomainList} {s s' : RefreshState}

/-- The live services of a process after some lists. -/
def liveAfter (first : DomainList) (lists : List DomainList) : LiveServices :=
  (LiveServices.new first).applyAll lists

theorem liveAfter_concat (first : DomainList) (lists : List DomainList) (candidate : DomainList) :
    liveAfter first (lists ++ [candidate]) = ((liveAfter first lists).apply candidate).2 :=
  List.foldl_append

variable {place : RefreshPlace} {candidate : DomainList} {failures : ℕ} {team : RefreshTeam}

theorem liveAfter_same (husable : candidate.patternCount ≠ 0)
    (hsame : (liveAfter first lists).list = candidate) :
    liveAfter first (lists ++ [candidate]) = { liveAfter first lists with
      unchanged := wrapAdd 64 (liveAfter first lists).unchanged 1 } := by
  rw [liveAfter_concat, LiveServices.apply, if_neg husable, if_pos hsame]

theorem liveAfter_other (husable : candidate.patternCount ≠ 0)
    (hother : (liveAfter first lists).list ≠ candidate) :
    liveAfter first (lists ++ [candidate]) = { liveAfter first lists with
      matcher := Matcher.build candidate
      list := candidate
      applied := wrapAdd 64 (liveAfter first lists).applied 1 } := by
  rw [liveAfter_concat, LiveServices.apply, if_neg husable, if_neg hother]

/-- What the repository answered in a run, in order. -/
def repliesIn (steps : List (Step RefreshThread RefreshChoice)) : List Reply :=
  steps.flatMap fun
    | .go _ (.reply answer) => [answer]
    | _ => []

/-- The answers of a run are those of one attempt after another, the last of which may be under
way, and the lists are the first of those that the attempts made of their answers.  An attempt is
here what it asked with the answers, and its list unless it failed. -/
def ReadFrom (readJson : String → Option Json) (source : RefreshSource) (replies : List Reply)
    (lists : List DomainList) : Prop :=
  ∃ (attempts : List (List (Event String fun _ => Reply) × Option DomainList))
    (underWay : List Reply),
    (∀ attempt ∈ attempts, ∀ list ∈ attempt.2, Snapshot readJson source attempt.1 list) ∧
    replies = attempts.flatMap (·.1.map Sigma.snd) ++ underWay ∧
    lists <+: attempts.filterMap Prod.snd

/-- A list that some answers of the repository make. -/
def Fetched (readJson : String → Option Json) (source : RefreshSource) (list : DomainList) : Prop :=
  ∃ trace, Snapshot readJson source trace list

/-- What is left of a fetch after some answers. -/
def FetchRest (readJson : String → Option Json) (source : RefreshSource)
    (heard : List (Event String fun _ => Reply))
    (rest : HttpTask (Except RefreshError DomainList)) : Prop :=
  ∀ later result, Prog.Runs web rest () later result () →
    Prog.Runs web (source.fetch readJson) () (heard ++ later) result ()

theorem FetchRest.hears {heard : List (Event String fun _ => Reply)} {url : String}
    {next : Reply → HttpTask (Except RefreshError DomainList)}
    (h : FetchRest readJson source heard (.act url next)) (answer : Reply) :
    FetchRest readJson source (heard ++ [⟨url, answer⟩]) (next answer) := by
  intro later result hrun
  rw [List.append_assoc]
  exact h _ result (Prog.runs_act_iff.mpr ⟨answer, answer, (), later, rfl, rfl, hrun⟩)

theorem FetchRest.snapshot {heard : List (Event String fun _ => Reply)}
    (h : FetchRest readJson source heard (.ret (.ok candidate))) :
    Snapshot readJson source heard candidate := by
  have hruns := h [] _ (.ret _ _)
  rw [List.append_nil] at hruns
  exact snapshot_of_runs hruns

theorem FetchRest.fetched {heard : List (Event String fun _ => Reply)}
    (h : FetchRest readJson source heard (.ret (.ok candidate))) :
    Fetched readJson source candidate :=
  ⟨heard, h.snapshot⟩

theorem ReadFrom.fetched (h : ReadFrom readJson source replies lists) :
    ∀ list ∈ lists, Fetched readJson source list := by
  obtain ⟨attempts, underWay, hsnapshots, -, hlists⟩ := h
  intro list hlist
  obtain ⟨attempt, hattempt, hmade⟩ := List.mem_filterMap.mp (hlists.subset hlist)
  exact ⟨attempt.1, hsnapshots attempt hattempt list hmade⟩

theorem Fetched.usable (h : Fetched readJson source candidate) :
    candidate.patternCount ≠ 0 :=
  h.elim fun _ hsnapshot => hsnapshot.usable

/-- A candidate is fetched, and differs from the list before it. -/
structure Replaces (readJson : String → Option Json) (source : RefreshSource) (first : DomainList)
    (earlier : List DomainList) (candidate : DomainList) : Prop where
  fetched : Fetched readJson source candidate
  other : (liveAfter first earlier).list ≠ candidate

/-- Where the task stands when `lists` have taken effect: a list takes effect when its matcher
is stored, or when it is found to be the live one and counted. -/
def RefreshPlace.Stands (readJson : String → Option Json) (source : RefreshSource)
    (first : DomainList) (lists : List DomainList) (live : LiveServices) : RefreshPlace → Prop
  | .disabled | .sleeping => live = liveAfter first lists
  | .fetching heard rest => live = liveAfter first lists ∧ FetchRest readJson source heard rest
  | .same candidate => live = liveAfter first lists ∧ Fetched readJson source candidate ∧
      (liveAfter first lists).list = candidate
  | .built candidate => live = liveAfter first lists ∧
      Replaces readJson source first lists candidate
  | .stored candidate => ∃ earlier, lists = earlier ++ [candidate] ∧
      Replaces readJson source first earlier candidate ∧
      live = { liveAfter first earlier with matcher := Matcher.build candidate }
  | .listed candidate => ∃ earlier, lists = earlier ++ [candidate] ∧
      Replaces readJson source first earlier candidate ∧
      live = { liveAfter first earlier with
        matcher := Matcher.build candidate
        list := candidate }

/-- The attempts that have not taken effect and not failed. -/
def RefreshPlace.pending : RefreshPlace → ℕ
  | .fetching _ _ | .same _ | .built _ => 1
  | _ => 0

/-- The answers to the attempt under way. -/
def RefreshPlace.heard : RefreshPlace → List Reply
  | .fetching heard _ => heard.map Sigma.snd
  | _ => []

/-- The list that was fetched and has not taken effect. -/
def RefreshPlace.waiting : RefreshPlace → List DomainList
  | .same candidate | .built candidate => [candidate]
  | _ => []

/-- `ReadFrom` with the attempt under way, and the list that waits, as the place has them. -/
def RefreshPlace.Reads (readJson : String → Option Json) (source : RefreshSource)
    (replies : List Reply) (lists : List DomainList) (place : RefreshPlace) : Prop :=
  ∃ attempts : List (List (Event String fun _ => Reply) × Option DomainList),
    (∀ attempt ∈ attempts, ∀ list ∈ attempt.2, Snapshot readJson source attempt.1 list) ∧
    replies = attempts.flatMap (·.1.map Sigma.snd) ++ place.heard ∧
    attempts.filterMap Prod.snd = lists ++ place.waiting

/-- An attempt ends: its answers are complete, and so is its list if it made one. -/
theorem RefreshPlace.Reads.ends
    {heard : List (Event String fun _ => Reply)} {rest : HttpTask (Except RefreshError DomainList)}
    (h : (RefreshPlace.fetching heard rest).Reads readJson source replies lists)
    {place' : RefreshPlace} (made : Option DomainList)
    (hmade : ∀ list ∈ made, Snapshot readJson source heard list)
    (hheard : place'.heard = []) (hcandidate : place'.waiting = made.toList) :
    place'.Reads readJson source replies lists := by
  obtain ⟨attempts, hsnapshots, hreplies, hlists⟩ := h
  refine ⟨attempts ++ [(heard, made)], fun attempt hattempt => ?_, ?_, ?_⟩
  · rcases List.mem_append.mp hattempt with hold | hnew
    · exact hsnapshots attempt hold
    · rw [List.mem_singleton.mp hnew]
      exact hmade
  · rw [hreplies, hheard, List.flatMap_append, List.flatMap_singleton, List.append_nil]
    rfl
  · rw [List.filterMap_append, hlists, hcandidate]
    cases made <;> simp [RefreshPlace.waiting]

/-- The task in its place, the lists that have taken effect and the attempts that failed. -/
structure RefreshPlace.Tracks (readJson : String → Option Json) (source : RefreshSource)
    (first : DomainList) (replies : List Reply) (lists : List DomainList) (failures : ℕ)
    (s : RefreshState) (place : RefreshPlace) : Prop where
  reads : place.Reads readJson source replies lists
  stands : place.Stands readJson source first lists s.live
  failed : s.failed = failures % 2 ^ 64
  attempts : s.attempts = (lists.length + failures + place.pending) % 2 ^ 64

theorem wrapAdd_mod (n : ℕ) : wrapAdd 64 (n % 2 ^ 64) 1 = (n + 1) % 2 ^ 64 := by
  rw [wrapAdd, Nat.mod_add_mod]

/-- The matcher is that of the lists that have taken effect, at every step of the task. -/
theorem RefreshPlace.Stands.matcher_eq {live : LiveServices}
    (h : place.Stands readJson source first lists live) :
    live.matcher = (liveAfter first lists).matcher := by
  have hpublished : ∀ {earlier : List DomainList} {candidate : DomainList},
      Replaces readJson source first earlier candidate →
      Matcher.build candidate = (liveAfter first (earlier ++ [candidate])).matcher := by
    intro earlier candidate hreplaces
    exact (LiveServices.matcher_applyAll first earlier hreplaces.fetched.usable).symm
  cases place with
  | disabled | sleeping => rw [h]
  | fetching | same | built => rw [h.1]
  | stored | listed =>
      obtain ⟨earlier, rfl, hreplaces, rfl⟩ := h
      exact hpublished hreplaces

/-- One step of the task: at most one more list takes effect. -/
theorem RefreshPlace.Tracks.move {place' : RefreshPlace} {choice : RefreshChoice}
    (h : place.Tracks readJson source first replies lists failures s)
    (hmove : place.Moves readJson source s choice place' s') :
    ∃ more failures', place'.Tracks readJson source first
      (replies ++ repliesIn [.go 0 choice]) (lists ++ more) failures' s' := by
  obtain ⟨hreads, hstands, hfailed, hattempts⟩ := h
  -- a step after which the same lists are in effect
  have hsettled : ∀ {place'' : RefreshPlace} {s'' : RefreshState} {replies' : List Reply}
      (failures' : ℕ), place''.Reads readJson source replies' lists →
      place''.Stands readJson source first lists s''.live → s''.failed = failures' % 2 ^ 64 →
      s''.attempts = (lists.length + failures' + place''.pending) % 2 ^ 64 →
      ∃ more failures',
        place''.Tracks readJson source first replies' (lists ++ more) failures' s'' := by
    intro place'' s'' replies' failures' hreads' hstands' hfailed' hattempts'
    refine ⟨[], failures', ?_⟩
    rw [List.append_nil]
    exact ⟨hreads', hstands', hfailed', hattempts'⟩
  -- a step by which the candidate takes effect
  have hgrown : ∀ {place'' : RefreshPlace} {s'' : RefreshState} {candidate : DomainList},
      place.waiting = [candidate] → place.heard = place''.heard → place''.waiting = [] →
      place''.Stands readJson source first (lists ++ [candidate]) s''.live →
      s''.failed = s.failed → s''.attempts = s.attempts → place.pending = 1 →
      place''.pending = 0 →
      ∃ more failures',
        place''.Tracks readJson source first replies (lists ++ more) failures' s'' := by
    intro place'' s'' candidate hcandidate hheard hnone hstands' hfailed' hattempts' hbefore hafter
    refine ⟨[candidate], failures, ?_, hstands', hfailed'.trans hfailed, ?_⟩
    · obtain ⟨attempts, hsnapshots, hreplies, hlists⟩ := hreads
      refine ⟨attempts, hsnapshots, hheard ▸ hreplies, ?_⟩
      rw [hlists, hcandidate, hnone, List.append_nil]
    · rw [hattempts', hattempts, hbefore, hafter, List.length_append, List.length_singleton]
      congr 1
      omega
  have hsilent : replies ++ repliesIn [.go 0 .go] = replies := List.append_nil _
  cases hmove with
  | hears =>
      obtain ⟨hlive, hrest⟩ := hstands
      refine hsettled failures ?_ ⟨hlive, hrest.hears _⟩ hfailed hattempts
      obtain ⟨attempts, hsnapshots, hreplies, hlists⟩ := hreads
      refine ⟨attempts, hsnapshots, ?_, hlists⟩
      rw [hreplies, List.append_assoc]
      simp [RefreshPlace.heard, repliesIn]
  | wakes =>
      rw [hsilent]
      refine hsettled failures hreads ⟨hstands, fun later result hrun => hrun⟩ hfailed ?_
      rw [hattempts, wrapAdd_mod]
      rfl
  | fails =>
      rw [hsilent]
      refine hsettled (failures + 1) (hreads.ends none (fun _ hlist => ?_) rfl rfl)
        hstands.1 ?_ hattempts
      · cases hlist
      · rw [hfailed, wrapAdd_mod]
  | rejects hempty => exact absurd hempty hstands.2.fetched.usable
  | finds husable hsame =>
      rw [hsilent]
      refine hsettled failures (hreads.ends (some _) (fun _ hlist => ?_) rfl rfl)
        ⟨hstands.1, hstands.2.fetched, ?_⟩ hfailed hattempts
      · exact Option.some.inj hlist ▸ hstands.2.snapshot
      · rw [← hstands.1, hsame]
  | builds husable hother =>
      rw [hsilent]
      refine hsettled failures (hreads.ends (some _) (fun _ hlist => ?_) rfl rfl)
        ⟨hstands.1, hstands.2.fetched, ?_⟩ hfailed hattempts
      · exact Option.some.inj hlist ▸ hstands.2.snapshot
      · rwa [← hstands.1]
  | keeps =>
      rw [hsilent]
      obtain ⟨hlive, hcandidate, hsame⟩ := hstands
      refine hgrown rfl rfl rfl ?_ rfl rfl rfl rfl
      show _ = liveAfter first _
      rw [liveAfter_same hcandidate.usable hsame, ← hlive]
  | publishes =>
      rw [hsilent]
      obtain ⟨hlive, hreplaces⟩ := hstands
      exact hgrown rfl rfl rfl ⟨lists, rfl, hreplaces, by rw [← hlive]⟩ rfl rfl rfl rfl
  | lists =>
      rw [hsilent]
      obtain ⟨earlier, hlists, hreplaces, hlive⟩ := hstands
      refine hsettled failures hreads ⟨earlier, hlists, hreplaces, ?_⟩ hfailed hattempts
      rw [hlive]
  | counts =>
      rw [hsilent]
      obtain ⟨earlier, rfl, hreplaces, hlive⟩ := hstands
      refine hsettled failures hreads ?_ hfailed hattempts
      show _ = liveAfter first _
      rw [liveAfter_other hreplaces.fetched.usable hreplaces.other, hlive]

/-- The matchers that a connection has loaded are those of longer and longer parts of the lists
that have taken effect. -/
def Seen (first : DomainList) (lists : List DomainList) (loads : List Matcher) : Prop :=
  ∃ ks : List ℕ, ks.Pairwise (· ≤ ·) ∧ (∀ k ∈ ks, k ≤ lists.length) ∧
    loads = ks.map fun k => (liveAfter first (lists.take k)).matcher

theorem Seen.append {loads : List Matcher} (h : Seen first lists loads) (more : List DomainList) :
    Seen first (lists ++ more) loads := by
  obtain ⟨ks, hsorted, hbound, rfl⟩ := h
  refine ⟨ks, hsorted, fun k hk => ?_, List.map_congr_left fun k hk => ?_⟩
  · exact (hbound k hk).trans (by simp)
  · rw [List.take_append_of_le_length (hbound k hk)]

theorem Seen.load {loads : List Matcher} (h : Seen first lists loads) :
    Seen first lists (loads ++ [(liveAfter first lists).matcher]) := by
  obtain ⟨ks, hsorted, hbound, rfl⟩ := h
  refine ⟨ks ++ [lists.length], ?_, ?_, ?_⟩
  · refine List.pairwise_append.mpr ⟨hsorted, List.pairwise_singleton _ _, fun k hk n hn => ?_⟩
    rw [List.mem_singleton.mp hn]
    exact hbound k hk
  · intro k hk
    rcases List.mem_append.mp hk with hold | hnew
    · exact hbound k hold
    · exact (List.mem_singleton.mp hnew).le
  · simp

theorem RefreshThread.eq_of_start {t : RefreshThread} (h : t.start = true) : t = .reader [] := by
  unfold RefreshThread.start at h
  split at h
  · rfl
  · cases h

/-- One task and any number of connections. -/
structure RefreshTeam.Linear (readJson : String → Option Json) (source : RefreshSource)
    (first : DomainList) (replies : List Reply) (lists : List DomainList) (failures : ℕ)
    (place : RefreshPlace) (readers : List RefreshThread) (team : RefreshTeam) : Prop where
  threads : team.threads = .refresher place :: readers
  task : place.Tracks readJson source first replies lists failures team.shared
  seen : ∀ t ∈ readers, ∃ loads, t = .reader loads ∧ Seen first lists loads

theorem RefreshTeam.Linear.step {team' : RefreshTeam} {readers : List RefreshThread}
    {st : Step RefreshThread RefreshChoice}
    (h : team.Linear readJson source first replies lists failures place readers)
    (hstep : (refreshing readJson source).step team st = some team') :
    ∃ more failures' place' readers',
      team'.Linear readJson source first (replies ++ repliesIn [st]) (lists ++ more) failures'
        place' readers' := by
  obtain ⟨hthreads, htask, hseen⟩ := h
  cases st with
  | spawn t =>
      obtain ⟨hstart, rfl⟩ := Machine.step_spawn_iff.mp hstep
      refine ⟨[], failures, place, readers ++ [t], ?_, ?_, ?_⟩
      · simp [hthreads]
      · rwa [List.append_nil, show replies ++ repliesIn [.spawn t] = replies from List.append_nil _]
      · intro u hu
        rw [List.append_nil]
        rcases List.mem_append.mp hu with hold | hnew
        · exact hseen u hold
        · rw [List.mem_singleton.mp hnew, RefreshThread.eq_of_start hstart]
          exact ⟨[], rfl, [], .nil, fun k hk => (List.not_mem_nil hk).elim, rfl⟩
  | go tid choice =>
      obtain ⟨t, t', s', ht, hmove, rfl⟩ := Machine.step_go_iff.mp hstep
      rw [hthreads] at ht
      cases tid with
      | zero =>
          obtain rfl : .refresher place = t := Option.some.inj ht
          obtain ⟨⟨place', _⟩, hplace, hnext⟩ := Option.map_eq_some_iff.mp hmove
          cases hnext
          obtain ⟨more, failures', htask'⟩ := htask.move (RefreshPlace.moves_of_move hplace)
          refine ⟨more, failures', place', readers, by rw [hthreads]; rfl, htask', fun u hu => ?_⟩
          obtain ⟨loads, rfl, hloads⟩ := hseen u hu
          exact ⟨loads, rfl, hloads.append more⟩
      | succ n =>
          obtain ⟨loads, rfl, hloads⟩ := hseen t (List.mem_of_getElem? ht)
          cases choice with
          | reply answer => cases hmove
          | go =>
              cases hmove
              refine ⟨[], failures, place, readers.set n _, by rw [hthreads]; rfl, ?_, ?_⟩
              · rwa [List.append_nil,
                  show replies ++ repliesIn [.go (n + 1) .go] = replies from List.append_nil _]
              · intro u hu
                rw [List.append_nil]
                rcases List.mem_or_eq_of_mem_set hu with hold | rfl
                · exact hseen u hold
                · exact ⟨_, rfl, htask.stands.matcher_eq ▸ hloads.load⟩

/-- Whether the task is at an attempt. -/
def RefreshPlace.underWay : RefreshPlace → ℕ
  | .disabled | .sleeping => 0
  | _ => 1

end Linearised

end Cachic
