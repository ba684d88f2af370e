import Cachic.Range
import Cachic.Services.Key

/-!
# Refreshing the list of domains

A running proxy holds the list and the matcher built from it, and replaces both when a new
list arrives.  The rules are compiled when it starts, for the services of the list it starts
with, and stay.

So a refresh is as good as a restart for a service the process started with.  A service that a
refresh brings in is served under the default rule, whatever the rules say of it: that makes no
difference exactly if no host reaches it, or its rule says nothing about the hosts that do
(`refresh_equals_restart`).  The library of regular expressions is a parameter, its errors
included.
-/

namespace Cachic

open Range

/-- The number of patterns of a list. -/
def DomainList.patternCount (list : DomainList) : ℕ :=
  (list.services.map fun service => service.patterns.length).sum

/-- The live list and matcher, and what became of the refreshes. -/
structure LiveServices where
  matcher : Matcher
  list : DomainList
  applied : ℕ
  unchanged : ℕ
  rejected : ℕ

namespace LiveServices

def new (list : DomainList) : LiveServices where
  matcher := Matcher.build list
  list := list
  applied := 0
  unchanged := 0
  rejected := 0

/-- Replace the live list by one that is usable and different; whether anything changed. -/
def apply (live : LiveServices) (candidate : DomainList) : Bool × LiveServices :=
  if candidate.patternCount = 0 then
    (false, { live with rejected := wrapAdd 64 live.rejected 1 })
  else if live.list = candidate then
    (false, { live with unchanged := wrapAdd 64 live.unchanged 1 })
  else
    (true, { live with matcher := Matcher.build candidate
                       list := candidate
                       applied := wrapAdd 64 live.applied 1 })

/-- One refresh after another. -/
def applyAll (live : LiveServices) (candidates : List DomainList) : LiveServices :=
  candidates.foldl (fun live candidate => (live.apply candidate).2) live

/-- The matcher is that of the list. -/
def Coherent (live : LiveServices) : Prop := live.matcher = Matcher.build live.list

variable {live : LiveServices}

theorem Coherent.apply (h : live.Coherent) (candidate : DomainList) :
    (live.apply candidate).2.Coherent := by
  unfold LiveServices.apply
  split
  · exact h
  · split
    · exact h
    · rfl

theorem Coherent.applyAll (h : live.Coherent) (candidates : List DomainList) :
    (live.applyAll candidates).Coherent := by
  induction candidates generalizing live with
  | nil => exact h
  | cons candidate rest ih => exact ih (h.apply candidate)

/-- A usable list is the live one after a refresh, whether or not it was before. -/
theorem list_apply {candidate : DomainList} (h : candidate.patternCount ≠ 0) :
    (live.apply candidate).2.list = candidate := by
  unfold LiveServices.apply
  rw [if_neg h]
  split
  · next hsame => exact hsame
  · rfl

theorem matcher_applyAll (list : DomainList) (earlier : List DomainList) {candidate : DomainList}
    (h : candidate.patternCount ≠ 0) :
    ((new list).applyAll (earlier ++ [candidate])).matcher = Matcher.build candidate := by
  have hlast : (new list).applyAll (earlier ++ [candidate]) =
      (((new list).applyAll earlier).apply candidate).2 := List.foldl_append
  have hnew : (new list).Coherent := rfl
  have hcoherent := (hnew.applyAll earlier).apply candidate
  rw [hlast, hcoherent, list_apply h]

end LiveServices

/-! ## The compiled rules -/

/-- The rules of the services of a list, compiled; the first that does not compile is the
error. -/
def compileRules (lib : RegexLib) (rules : Rules) :
    (String → Option CompiledRule) → List Service →
      Except CompileError (String → Option CompiledRule)
  | compiled, [] => .ok compiled
  | compiled, service :: rest => do
      let rule ← CompiledRule.compile lib service.name (rules.forService service.name)
      compileRules lib rules (Function.update compiled service.name (some rule)) rest

section Compiled

variable {lib : RegexLib} {rules : Rules}

/-- Every service of the list has its rule in the table, and nothing else has changed. -/
theorem lookup_of_compileRules {services : List Service}
    {compiled compiled' : String → Option CompiledRule}
    (h : compileRules lib rules compiled services = .ok compiled') (name : String) :
    if name ∈ services.map Service.name then
      ∃ rule, CompiledRule.compile lib name (rules.forService name) = .ok rule ∧
        compiled' name = some rule
    else compiled' name = compiled name := by
  induction services generalizing compiled with
  | nil =>
      cases h
      rfl
  | cons service rest ih =>
      rw [compileRules] at h
      cases hrule : CompiledRule.compile lib service.name (rules.forService service.name) with
      | error e =>
          rw [hrule] at h
          cases h
      | ok rule =>
          rw [hrule] at h
          have hrest := ih h
          by_cases hlater : name ∈ rest.map Service.name
          · rw [if_pos hlater] at hrest
            rw [List.map_cons, if_pos (List.mem_cons_of_mem _ hlater)]
            exact hrest
          · rw [if_neg hlater] at hrest
            by_cases hname : name = service.name
            · subst hname
              rw [List.map_cons, if_pos List.mem_cons_self]
              exact ⟨rule, hrule, by rw [hrest, Function.update_self]⟩
            · rw [List.map_cons, if_neg (List.not_mem_cons_of_ne_of_not_mem hname hlater), hrest,
                Function.update_of_ne hname]

theorem compileRules_of_compile {services : List Service}
    (h : ∀ service ∈ services, ∃ rule,
      CompiledRule.compile lib service.name (rules.forService service.name) = .ok rule)
    (compiled : String → Option CompiledRule) :
    ∃ compiled', compileRules lib rules compiled services = .ok compiled' := by
  induction services generalizing compiled with
  | nil => exact ⟨compiled, rfl⟩
  | cons service rest ih =>
      obtain ⟨rule, hrule⟩ := h service List.mem_cons_self
      obtain ⟨compiled', hrest⟩ := ih (fun s hs => h s (List.mem_cons_of_mem service hs))
        (Function.update compiled service.name (some rule))
      refine ⟨compiled', ?_⟩
      rw [compileRules, hrule]
      exact hrest

end Compiled

/-! ## The proxy -/

/-- What decides about a request. -/
structure Frontend where
  live : LiveServices
  compiled : String → Option CompiledRule

/-- What `serve` makes of a request before the cache is asked. -/
inductive Route
  | unmatched
  /-- matched, and not to be cached -/
  | uncached (service : String)
  | cached (service : String) (key : CacheKey) (scheme : String)
  deriving DecidableEq, Repr

namespace Frontend

/-- A process that starts with a list; `rules` are those merged from the operator's. -/
def start (lib : RegexLib) (rules : Rules) (list : DomainList) : Except CompileError Frontend := do
  let compiled ← compileRules lib rules (fun _ => none) list.services
  return { live := .new list, compiled }

def refresh (frontend : Frontend) (candidates : List DomainList) : Frontend :=
  { frontend with live := frontend.live.applyAll candidates }

/-- The rule a service is served under. -/
def ruleFor (frontend : Frontend) (service : String) : CompiledRule :=
  (frontend.compiled service).getD .default

/-- What a rule makes of a request for a service. -/
def decideUnder (lib : RegexLib) (rule : CompiledRule) (service host path target : String) :
    Route :=
  if !rule.isCacheable lib path then .uncached service
  else .cached service (normalise service host target rule)
    (if rule.upstreamHttps then "https" else "http")

/-- `path` is the path of the request's URI and `target` its path and query. -/
def route (lib : RegexLib) (frontend : Frontend) (host path target : String) : Route :=
  match frontend.live.matcher.serviceFor host.toList with
  | none => .unmatched
  | some service => decideUnder lib (frontend.ruleFor service) service host path target

/-- A rule under which requests for this host are treated as under the default. -/
structure SaysNothing (lib : RegexLib) (rule : CompiledRule) (host : String) : Prop where
  keepQuery : rule.keepQuery = false
  includeHost : rule.includeHost = true → Matcher.normaliseHost host.toList = []
  upstreamHttps : rule.upstreamHttps = false
  stops : ∀ path, ¬ rule.Stops lib path

section SaysNothing

variable {lib : RegexLib} {rule : CompiledRule} {service host : String}

theorem decideUnder_of_saysNothing (h : SaysNothing lib rule host) (path target : String) :
    decideUnder lib .default service host path target =
      decideUnder lib rule service host path target := by
  have hcacheable : rule.isCacheable lib path = true := by
    rw [← Bool.not_eq_false, CompiledRule.isCacheable_eq_false_iff]
    exact h.stops path
  have hhost : (if rule.includeHost then Matcher.normaliseHost host.toList else []) = [] := by
    split
    · next hinclude => exact h.includeHost hinclude
    · rfl
  have hkey : normalise service host target rule = normalise service host target .default := by
    simp only [normalise, hhost, h.keepQuery]
    rfl
  simp only [decideUnder, hcacheable, hkey, h.upstreamHttps]
  rfl

/-- A rule that keys every target as the default does keeps neither query nor host: one target
without a query and one with show it. -/
theorem keys_of_default (hkey : ∀ target,
    normalise service host target .default = normalise service host target rule) :
    rule.keepQuery = false ∧
      (rule.includeHost = true → Matcher.normaliseHost host.toList = []) := by
  have htext : ∀ target, (normalise service host target .default).key.toList =
      (normalise service host target rule).key.toList := fun target => by rw [hkey target]
  simp only [toList_normalise] at htext
  have hroot := htext "/"
  have hquery := htext "/?q"
  have hnone : (splitTarget "/").2 = none := by decide
  have hsome : (splitTarget "/?q").2 = some "q" := by decide
  rw [hnone] at hroot
  rw [hsome] at hquery
  constructor
  · by_contra hkeep
    rw [Bool.not_eq_false] at hkeep
    have hlength := congrArg List.length hquery
    simp [queryPart, hkeep, CompiledRule.default] at hlength
    omega
  · intro hinclude
    rw [hinclude] at hroot
    simpa [queryPart, CompiledRule.default] using hroot

/-- That is all a rule can say. -/
theorem saysNothing_of_alike
    (hsame : ∀ path target, decideUnder lib .default service host path target =
      decideUnder lib rule service host path target) : SaysNothing lib rule host := by
  have hcached : ∀ path target, rule.isCacheable lib path = true ∧
      normalise service host target .default = normalise service host target rule ∧
      (if rule.upstreamHttps then "https" else "http") = "http" := by
    intro path target
    have h := hsame path target
    unfold decideUnder at h
    cases hcacheable : rule.isCacheable lib path with
    | false =>
        rw [hcacheable] at h
        cases h
    | true =>
        rw [hcacheable] at h
        obtain ⟨-, hkey, hscheme⟩ := Route.cached.inj h
        exact ⟨rfl, hkey, hscheme.symm⟩
  obtain ⟨hkeep, hhost⟩ := keys_of_default fun target => (hcached "/" target).2.1
  refine ⟨hkeep, hhost, ?_, fun path hstops => ?_⟩
  · by_contra hhttps
    rw [Bool.not_eq_false] at hhttps
    have hscheme := (hcached "/" "/").2.2
    rw [hhttps] at hscheme
    exact absurd hscheme (by decide)
  · rw [← CompiledRule.isCacheable_eq_false_iff, (hcached path "/").1] at hstops
    cases hstops

end SaysNothing

variable {lib : RegexLib} {rules : Rules} {list : DomainList} {frontend : Frontend}

theorem start_spec (h : start lib rules list = .ok frontend) :
    frontend.live = .new list ∧ ∀ name, if name ∈ list.services.map Service.name then
      CompiledRule.compile lib name (rules.forService name) = .ok (frontend.ruleFor name)
    else frontend.ruleFor name = .default := by
  unfold start at h
  cases hcompiled : compileRules lib rules (fun _ => none) list.services with
  | error e =>
      rw [hcompiled] at h
      cases h
  | ok compiled =>
      rw [hcompiled] at h
      cases h
      refine ⟨rfl, fun name => ?_⟩
      have hlookup := lookup_of_compileRules hcompiled name
      split
      · next hname =>
          rw [if_pos hname] at hlookup
          obtain ⟨rule, hrule, hentry⟩ := hlookup
          simp only [hrule, ruleFor, hentry, Option.getD_some]
      · next hname =>
          rw [if_neg hname] at hlookup
          simp only [ruleFor, hlookup, Option.getD_none]

theorem compile_of_start (h : start lib rules list = .ok frontend) {service : Service}
    (hservice : service ∈ list.services) :
    CompiledRule.compile lib service.name (rules.forService service.name) =
      .ok (frontend.ruleFor service.name) := by
  have hrule := (start_spec h).2 service.name
  rwa [if_pos (List.mem_map_of_mem hservice)] at hrule

theorem start_of_compile (h : ∀ service ∈ list.services, ∃ rule,
    CompiledRule.compile lib service.name (rules.forService service.name) = .ok rule) :
    ∃ frontend, start lib rules list = .ok frontend := by
  obtain ⟨compiled, hcompiled⟩ := compileRules_of_compile h fun _ => none
  refine ⟨{ live := .new list, compiled }, ?_⟩
  rw [start, hcompiled]
  rfl

end Frontend

/-- **A refresh is a restart** to a usable list, a process started afresh with that list and the
same rules starting and treating every request alike, exactly if the rules of the list's
services compile, and of every service that some host reaches and the running process was not
started with, the rule says nothing about that host. -/
theorem refresh_equals_restart {lib : RegexLib} {operator : Rules} {first list : DomainList}
    {frontend : Frontend} (hstart : Frontend.start lib operator.merge first = .ok frontend)
    (earlier : List DomainList) (husable : list.patternCount ≠ 0) :
    (∃ fresh, Frontend.start lib operator.merge list = .ok fresh ∧
        ∀ host path target, (frontend.refresh (earlier ++ [list])).route lib host path target =
          fresh.route lib host path target) ↔
      (∀ service ∈ list.services, ∃ rule,
          CompiledRule.compile lib service.name (operator.merge.forService service.name) =
            .ok rule) ∧
        ∀ host name, (Matcher.build list).serviceFor host.toList = some name →
          name ∉ first.services.map Service.name → ∀ rule,
            CompiledRule.compile lib name (operator.merge.forService name) = .ok rule →
              Frontend.SaysNothing lib rule host := by
  obtain ⟨hlive, hrules⟩ := Frontend.start_spec hstart
  have hmatcher : (frontend.refresh (earlier ++ [list])).live.matcher = Matcher.build list := by
    show (frontend.live.applyAll (earlier ++ [list])).matcher = _
    rw [hlive]
    exact LiveServices.matcher_applyAll first earlier husable
  -- what is left to compare is the rule of each service that a host reaches
  have hroutes : ∀ {fresh}, Frontend.start lib operator.merge list = .ok fresh →
      ∀ host path target, ((frontend.refresh (earlier ++ [list])).route lib host path target =
          fresh.route lib host path target ↔
        ∀ name, (Matcher.build list).serviceFor host.toList = some name →
          Frontend.decideUnder lib (frontend.ruleFor name) name host path target =
            Frontend.decideUnder lib (fresh.ruleFor name) name host path target) := by
    intro fresh hfresh host path target
    have hfreshMatcher : fresh.live.matcher = Matcher.build list := by
      rw [(Frontend.start_spec hfresh).1]
      rfl
    rw [Frontend.route, Frontend.route, hmatcher, hfreshMatcher]
    cases (Matcher.build list).serviceFor host.toList with
    | none => simp
    | some name => simp [Frontend.refresh, Frontend.ruleFor]
  have hcompiled : ∀ {fresh}, Frontend.start lib operator.merge list = .ok fresh →
      ∀ {host name}, (Matcher.build list).serviceFor host = some name →
        CompiledRule.compile lib name (operator.merge.forService name) =
          .ok (fresh.ruleFor name) := by
    intro fresh hfresh host name hreached
    obtain ⟨service, hmem, rfl, -⟩ := Matcher.authorised_of_serviceFor hreached
    exact Frontend.compile_of_start hfresh hmem
  constructor
  · rintro ⟨fresh, hfresh, hsame⟩
    refine ⟨fun service hservice => ⟨_, Frontend.compile_of_start hfresh hservice⟩,
      fun host name hreached hnew rule hrule => ?_⟩
    have hdefault := hrules name
    rw [if_neg hnew] at hdefault
    rw [hcompiled hfresh hreached] at hrule
    obtain rfl := Except.ok.inj hrule
    have halike : ∀ path target, Frontend.decideUnder lib .default name host path target =
        Frontend.decideUnder lib (fresh.ruleFor name) name host path target := by
      intro path target
      rw [← hdefault]
      exact (hroutes hfresh host path target).mp (hsame host path target) name hreached
    exact Frontend.saysNothing_of_alike halike
  · rintro ⟨hcompile, hnothing⟩
    obtain ⟨fresh, hfresh⟩ := Frontend.start_of_compile hcompile
    refine ⟨fresh, hfresh, fun host path target => (hroutes hfresh host path target).mpr ?_⟩
    intro name hreached
    have hfreshRule := hcompiled hfresh hreached
    have hrule := hrules name
    -- a service of the first list has its rule in the table, any other the default
    by_cases hknown : name ∈ first.services.map Service.name
    · rw [if_pos hknown, hfreshRule] at hrule
      rw [Except.ok.inj hrule]
    · rw [if_neg hknown] at hrule
      rw [hrule]
      exact Frontend.decideUnder_of_saysNothing (hnothing host name hreached hknown _ hfreshRule)
        path target

namespace Scenario

/-- A library for patterns without special characters. -/
def literalRegex : RegexLib where
  patternFault := fun _ => none
  setFault := fun _ => none
  isMatch := fun set path => set.any fun pattern => CharText.occurs pattern.toList path.toList

def steamAt (host : String) : Service where
  name := "steam"
  description := ""
  patterns := [.exact host.toList]

/-- A list with one service. -/
def steamOnly : DomainList := { services := [steamAt "steam.example"] }

/-- A host of a service has moved, and a service has come that no host reaches. -/
def steamMoved : DomainList where
  services := [steamAt "cdn.steam.example", { name := "riot", description := "", patterns := [] }]

/-- A service has come that the shipped rules know. -/
def withRiot : DomainList where
  services := [steamAt "steam.example",
    { name := "riot", description := "", patterns := [.exact "riot.example".toList] }]

theorem refresh_equals_restart_moved : ∃ old fresh,
    Frontend.start literalRegex Rules.default.merge steamOnly = .ok old ∧
      Frontend.start literalRegex Rules.default.merge steamMoved = .ok fresh ∧
      ∀ host path target, (old.refresh ([] ++ [steamMoved])).route literalRegex host path target =
        fresh.route literalRegex host path target := by
  obtain ⟨old, hold⟩ : ∃ old, Frontend.start literalRegex Rules.default.merge steamOnly = .ok old :=
    ⟨_, rfl⟩
  have husable : steamMoved.patternCount ≠ 0 := by decide
  have hrestart := refresh_equals_restart hold [] husable
  obtain ⟨fresh, hfresh⟩ := hrestart.mpr (by
    refine ⟨fun service hservice => ?_, fun host name hreached hnew => ?_⟩
    · rcases List.mem_pair.mp hservice with rfl | rfl
      · exact ⟨_, rfl⟩
      · exact ⟨_, rfl⟩
    · obtain ⟨service, hservice, rfl, pattern, hpattern, -⟩ :=
        Matcher.authorised_of_serviceFor hreached
      rcases List.mem_pair.mp hservice with rfl | rfl
      · exact absurd (by decide) hnew
      · cases hpattern)
  exact ⟨old, fresh, hold, hfresh⟩

/-- A path the shipped rules exclude is cached after the refresh that brought its service. -/
theorem refresh_loses_rule : ∃ old fresh,
    Frontend.start literalRegex Rules.default.merge steamOnly = .ok old ∧
      Frontend.start literalRegex Rules.default.merge withRiot = .ok fresh ∧
      (old.live.apply withRiot).1 = true ∧
      (old.refresh [withRiot]).route literalRegex "riot.example" "/releaselisting_EUW"
        "/releaselisting_EUW" = .cached "riot" ⟨"/releaselisting_EUW", "riot"⟩ "http" ∧
      fresh.route literalRegex "riot.example" "/releaselisting_EUW" "/releaselisting_EUW" =
        .uncached "riot" :=
  ⟨_, _, rfl, rfl, by decide, by decide, by decide⟩

end Scenario

end Cachic
