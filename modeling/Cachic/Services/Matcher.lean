import Cachic.Services.Domains

/-!
# Matching a host to a service

`Matcher` is the list compiled for lookups: one table for exact names, one for the
parents of wildcards.  A host is normalised, looked up whole, and then by each of
its parent domains, the longest first.

`authorised_of_serviceFor` says what a match means: some pattern of the service
covers the normalised host, as text.
-/

namespace Cachic

open CharText

/-- The compiled list.  Both tables give the position of a service in `names`. -/
structure Matcher where
  exact : List Char → Option ℕ
  suffix : List Char → Option ℕ
  names : List String

namespace Matcher

def empty : Matcher where
  exact := fun _ => none
  suffix := fun _ => none
  names := []

/-- Enter one pattern; a later service takes over an earlier one's. -/
def insert (index : ℕ) (m : Matcher) : Pattern → Matcher
  | .exact host => { m with exact := Function.update m.exact host (some index) }
  | .suffix parent => { m with suffix := Function.update m.suffix parent (some index) }

/-- Enter the next service. -/
def addService (m : Matcher) (service : Service) : Matcher :=
  let filled := service.patterns.foldl (insert m.names.length) m
  { filled with names := filled.names ++ [service.name] }

def build (list : DomainList) : Matcher := list.services.foldl addService empty

/-- A `Host` header without its port, in lower case, without trailing dots.  The
port of a bracketed address is after the bracket. -/
def normaliseHost (host : List Char) : List Char :=
  let host := trim host
  let withoutPort :=
    match stripStart ['['] host with
    | some rest =>
        match splitOnce ']' rest with
        | some (inner, _) => inner
        | none => rest
    | none =>
        match rsplitOnce ':' host with
        -- an empty port is stripped too
        | some (before, after) => if after.all Char.isDigit then before else host
        | none => host
  asciiLower (withoutPort.rdropWhile fun c => c = '.')

/-- Look up the parents of a host, the longest first: what follows each dot, until
nothing does. -/
def parentIndex (m : Matcher) : List Char → Option ℕ
  | [] => none
  | c :: rest =>
      if c = '.' then
        if rest = [] then none
        else
          match m.suffix rest with
          | some index => some index
          | none => parentIndex m rest
      else parentIndex m rest

/-- The service a host belongs to, if any. -/
def serviceFor (m : Matcher) (host : List Char) : Option String :=
  let host := normaliseHost host
  if host = [] then none
  else
    match m.exact host with
    | some index => m.names[index]?
    | none => (m.parentIndex host).bind fun index => m.names[index]?

end Matcher

/-! ## What a match means -/

/-- The host names a pattern stands for.  A wildcard does not stand for its
parent. -/
def Pattern.Covers (name : List Char) : Pattern → Prop
  | .exact host => name = host
  | .suffix parent => '.' :: parent <:+ name

/-- A pattern the service at a position lists. -/
def Lists (services : List Service) (index : ℕ) (pattern : Pattern) : Prop :=
  ∃ service, services[index]? = some service ∧ pattern ∈ service.patterns

/-- The tables hold nothing but patterns of the services they point at. -/
structure Matcher.Points (services : List Service) (m : Matcher) : Prop where
  exact : ∀ host index, m.exact host = some index → Lists services index (.exact host)
  suffix : ∀ parent index, m.suffix parent = some index → Lists services index (.suffix parent)

namespace Matcher

variable {services : List Service} {m : Matcher}

theorem Points.insert (hm : Points services m) {index : ℕ} {pattern : Pattern}
    (hlists : Lists services index pattern) : Points services (m.insert index pattern) := by
  cases pattern with
  | exact host =>
      refine ⟨fun host' i h => ?_, hm.suffix⟩
      simp only [Matcher.insert, Function.update_apply] at h
      split at h
      · next heq =>
          cases h
          exact heq ▸ hlists
      · exact hm.exact host' i h
  | suffix parent =>
      refine ⟨hm.exact, fun parent' i h => ?_⟩
      simp only [Matcher.insert, Function.update_apply] at h
      split at h
      · next heq =>
          cases h
          exact heq ▸ hlists
      · exact hm.suffix parent' i h

theorem Points.insert_all {index : ℕ} {patterns : List Pattern} (hm : Points services m)
    (hlists : ∀ p ∈ patterns, Lists services index p) :
    Points services (patterns.foldl (Matcher.insert index) m) := by
  induction patterns generalizing m with
  | nil => exact hm
  | cons pattern rest ih =>
      exact ih (hm.insert (hlists pattern List.mem_cons_self))
        fun p hp => hlists p (List.mem_cons_of_mem _ hp)

theorem names_insert_all (index : ℕ) (patterns : List Pattern) (m : Matcher) :
    (patterns.foldl (Matcher.insert index) m).names = m.names := by
  induction patterns generalizing m with
  | nil => rfl
  | cons pattern rest ih =>
      rw [List.foldl_cons, ih]
      cases pattern <;> rfl

/-- More services list what fewer do. -/
theorem lists_append {index : ℕ} {pattern : Pattern} (h : Lists services index pattern)
    (more : List Service) : Lists (services ++ more) index pattern := by
  obtain ⟨service, hservice, hmem⟩ := h
  exact ⟨service, by rw [List.getElem?_append_left (List.getElem?_eq_some_iff.mp hservice).1,
    hservice], hmem⟩

/-- The matcher of these services. -/
structure Built (services : List Service) (m : Matcher) : Prop extends Points services m where
  names : m.names = services.map Service.name

theorem Built.addService (hm : Built services m) (service : Service) :
    Built (services ++ [service]) (m.addService service) := by
  have hindex : (services ++ [service])[m.names.length]? = some service := by
    rw [hm.names, List.length_map]
    exact List.getElem?_concat_length
  have hmore : Points (services ++ [service]) m :=
    ⟨fun host i h => lists_append (hm.exact host i h) [service],
      fun parent i h => lists_append (hm.suffix parent i h) [service]⟩
  have hpoints := hmore.insert_all fun p (hp : p ∈ service.patterns) =>
    (⟨service, hindex, hp⟩ : Lists (services ++ [service]) m.names.length p)
  refine ⟨⟨hpoints.exact, hpoints.suffix⟩, ?_⟩
  simp only [Matcher.addService, names_insert_all, hm.names, List.map_append, List.map_cons,
    List.map_nil]

theorem built_build (list : DomainList) : Built list.services (build list) := by
  -- the services entered so far are those in front of the rest
  have hfold : ∀ (rest done : List Service) (m : Matcher), Built done m →
      Built (done ++ rest) (rest.foldl Matcher.addService m) := by
    intro rest
    induction rest with
    | nil =>
        intro done m hm
        simpa using hm
    | cons service rest ih =>
        intro done m hm
        have hnext := ih (done ++ [service]) _ (hm.addService service)
        simpa using hnext
  exact hfold list.services [] empty
    ⟨⟨fun _ _ h => (by cases h), fun _ _ h => (by cases h)⟩, rfl⟩

theorem parentIndex_eq_some {host : List Char} {index : ℕ}
    (h : m.parentIndex host = some index) :
    ∃ parent, '.' :: parent <:+ host ∧ m.suffix parent = some index := by
  induction host with
  | nil => cases h
  | cons c rest ih =>
      have hrest : m.parentIndex rest = some index →
          ∃ parent, '.' :: parent <:+ c :: rest ∧ m.suffix parent = some index := by
        intro hindex
        obtain ⟨parent, hsuffix, hparent⟩ := ih hindex
        exact ⟨parent, hsuffix.trans (List.suffix_cons c rest), hparent⟩
      rw [parentIndex] at h
      split at h
      · next hdot =>
          subst hdot
          split at h
          · cases h
          · split at h
            · next found hfound =>
                cases h
                exact ⟨rest, List.suffix_rfl, hfound⟩
            · exact hrest h
      · exact hrest h

/-- **A match is a pattern of the list**: the service a host is taken to belong to
lists a pattern that covers the normalised host. -/
theorem authorised_of_serviceFor {list : DomainList} {host : List Char} {name : String}
    (h : (build list).serviceFor host = some name) :
    ∃ service ∈ list.services, service.name = name ∧
      ∃ pattern ∈ service.patterns, pattern.Covers (normaliseHost host) := by
  have hbuilt := built_build list
  have hlisted : ∀ index pattern, Lists list.services index pattern →
      (build list).names[index]? = some name → pattern.Covers (normaliseHost host) →
      ∃ service ∈ list.services, service.name = name ∧
        ∃ pattern ∈ service.patterns, pattern.Covers (normaliseHost host) := by
    rintro index pattern ⟨service, hservice, hpattern⟩ hname hcovers
    rw [hbuilt.names, List.getElem?_map, hservice] at hname
    exact ⟨service, List.mem_of_getElem? hservice, Option.some.inj hname, pattern, hpattern,
      hcovers⟩
  rw [serviceFor] at h
  split at h
  · cases h
  · split at h
    · next index hindex => exact hlisted index _ (hbuilt.exact _ _ hindex) h rfl
    · obtain ⟨index, hindex, hname⟩ := Option.bind_eq_some_iff.mp h
      obtain ⟨parent, hcovers, hparent⟩ := parentIndex_eq_some hindex
      exact hlisted index _ (hbuilt.suffix _ _ hparent) hname hcovers

end Matcher

end Cachic
