import Cachic.Properties.Paths
import Cachic.Services.Refresh

/-!
# What a cache key distinguishes

A key is the host, the normalised path and the query, one behind the other, with nothing
between host and path but the path's own slash.  So it can be taken apart as long as no slash
gets into a host and no question mark into a normalised path (`normalise_injective`), and a
decoded path may well hold one.

Whether a path is cached is decided on the path as the client spelled it, and the key is made of
the normalised one.  The rule is then about the object only where its patterns do not tell the
spellings of a path apart (`cacheable_of_key`).  Regular expressions are the library's
(`RegexLib`): any predicate on the patterns of a set and a path, of which nothing is assumed.
-/

namespace Cachic

open CharText UrlPath

/-! ## Taking a key apart -/

theorem exists_normalisePath (path : String) : ∃ rest, (normalisePath path).toList = '/' :: rest :=
  ⟨_, (toList_normalisePath path).trans (join_eq_intercalate (normalSegments_ne_nil _))⟩

/-- A path and a query are known from what they spell, if the paths have equally many question
marks. -/
theorem path_query_inj {path path' : List Char} {query query' : Option String}
    (h : path ++ queryPart true query = path' ++ queryPart true query')
    (hcount : path.count '?' = path'.count '?') : path = path' ∧ query = query' := by
  have hmore := congrArg (List.count '?') h
  cases query with
  | none =>
      cases query' with
      | none => simpa [queryPart] using h
      | some query' =>
          simp [queryPart] at hmore
          omega
  | some query =>
      cases query' with
      | none =>
          simp [queryPart] at hmore
          omega
      | some query' =>
          obtain ⟨hpath, hquery⟩ := append_sep_inj h hcount
          exact ⟨hpath, congrArg some (String.toList_inj.mp hquery)⟩

/-- The host of a key and what is behind it are known from the key, if the hosts have equally
many slashes. -/
theorem host_of_key {service host host' target target' : String} {rule : CompiledRule}
    (hkey : normalise service host target rule = normalise service host' target' rule)
    (hslashes : rule.includeHost = true →
      (Matcher.normaliseHost host.toList).count '/' =
        (Matcher.normaliseHost host'.toList).count '/') :
    (rule.includeHost = true →
        Matcher.normaliseHost host.toList = Matcher.normaliseHost host'.toList) ∧
      (normalisePath (splitTarget target).1).toList ++
          queryPart rule.keepQuery (splitTarget target).2 =
        (normalisePath (splitTarget target').1).toList ++
          queryPart rule.keepQuery (splitTarget target').2 := by
  have htext := congrArg (fun key => key.key.toList) hkey
  simp only [toList_normalise] at htext
  cases hinclude : rule.includeHost with
  | false =>
      rw [hinclude, if_neg Bool.false_ne_true, if_neg Bool.false_ne_true, List.nil_append,
        List.nil_append] at htext
      exact ⟨fun h => absurd h Bool.false_ne_true, htext⟩
  | true =>
      obtain ⟨rest, hpath⟩ := exists_normalisePath (splitTarget target).1
      obtain ⟨rest', hpath'⟩ := exists_normalisePath (splitTarget target').1
      rw [hinclude, if_pos rfl, if_pos rfl, hpath, hpath', List.append_assoc, List.append_assoc,
        List.cons_append, List.cons_append] at htext
      obtain ⟨hhost, hbehind⟩ := append_sep_inj htext (hslashes hinclude)
      exact ⟨fun _ => hhost, by rw [hpath, hpath', List.cons_append, List.cons_append, hbehind]⟩

/-- Requests with one key ask for one object, if their hosts have equally many slashes and their
paths equally many question marks. -/
theorem normalise_injective {service host host' target target' : String} {rule : CompiledRule}
    (hkey : normalise service host target rule = normalise service host' target' rule)
    (hslashes : rule.includeHost = true →
      (Matcher.normaliseHost host.toList).count '/' =
        (Matcher.normaliseHost host'.toList).count '/')
    (hmarks : rule.keepQuery = true →
      (normalisePath (splitTarget target).1).toList.count '?' =
        (normalisePath (splitTarget target').1).toList.count '?') :
    normalisePath (splitTarget target).1 = normalisePath (splitTarget target').1 ∧
      (rule.keepQuery = true → (splitTarget target).2 = (splitTarget target').2) ∧
      (rule.includeHost = true →
        Matcher.normaliseHost host.toList = Matcher.normaliseHost host'.toList) := by
  obtain ⟨hhost, hrest⟩ := host_of_key hkey hslashes
  cases hkeep : rule.keepQuery with
  | true =>
      rw [hkeep] at hrest
      obtain ⟨hpath, hquery⟩ := path_query_inj hrest (hmarks hkeep)
      exact ⟨String.toList_inj.mp hpath, fun _ => hquery, hhost⟩
  | false =>
      rw [hkeep, queryPart_false, queryPart_false, List.append_nil, List.append_nil] at hrest
      exact ⟨String.toList_inj.mp hrest, fun h => absurd h Bool.false_ne_true, hhost⟩

namespace Scenario

/-- The rule of a service that keeps the query, and one that keeps the host. -/
def keepingQuery : CompiledRule := { CompiledRule.default with keepQuery := true }

def includingHost : CompiledRule := { CompiledRule.default with includeHost := true }

/-- One service for every subdomain of a name. -/
def subdomains : Matcher :=
  Matcher.build { services := [{ name := "cdn", description := "",
                                 patterns := [.suffix "example.com".toList] }] }

theorem normalise_injective_escaped :
    normalisePath "/%61" = normalisePath "/a" ∧
      (keepingQuery.keepQuery = true → (splitTarget "/%61?v=1").2 = (splitTarget "/a?v=1").2) :=
  have hkey : normalise "cdn" "a.example.com" "/%61?v=1" keepingQuery =
      normalise "cdn" "a.example.com" "/a?v=1" keepingQuery := by decide
  have hsame := normalise_injective hkey (fun h => by cases h) (fun _ => by decide)
  ⟨hsame.1, hsame.2.1⟩

/-- An escaped question mark spells a path as a path and a query, and a host with a slash spells
another host and a longer path. -/
theorem normalise_collisions :
    (subdomains.serviceFor "a.example.com".toList = some "cdn" ∧
      normalise "cdn" "a.example.com" "/a%3Fb" keepingQuery =
        normalise "cdn" "a.example.com" "/a?b" keepingQuery ∧
      normalisePath (splitTarget "/a%3Fb").1 ≠ normalisePath (splitTarget "/a?b").1) ∧
    subdomains.serviceFor "a.example.com/b.example.com".toList = some "cdn" ∧
      normalise "cdn" "a.example.com" "/b.example.com/c" includingHost =
        normalise "cdn" "a.example.com/b.example.com" "/c" includingHost ∧
      Matcher.normaliseHost "a.example.com".toList ≠
        Matcher.normaliseHost "a.example.com/b.example.com".toList := by
  decide

end Scenario

/-! ## What the rules decide on -/

/-- The path of the URI of a request for this target; an empty one is the root. -/
def uriPath (target : String) : String :=
  if (splitTarget target).1 = "" then "/" else (splitTarget target).1

theorem normalisePath_uriPath (target : String) :
    normalisePath (uriPath target) = normalisePath (splitTarget target).1 := by
  unfold uriPath
  split
  · next hempty =>
    rw [hempty]
    decide
  · rfl

/-- A path that normalisation leaves as it is. -/
def InNormalForm (path : String) : Prop := normalisePath path = path

/-- Patterns that match this path and no other. -/
def RegexLib.only (path : String) : RegexLib where
  patternFault := fun _ => none
  setFault := fun _ => none
  isMatch := fun _ other => other == path

/-- Since the patterns may be any, only one spelling is the same to all of them. -/
theorem isCacheable_alike_iff {path other : String} :
    (∀ lib (rule : CompiledRule), rule.isCacheable lib path = rule.isCacheable lib other) ↔
      path = other := by
  constructor
  · intro halike
    -- an exclusion of the one spelling tells it from every other
    have hsame := halike (.only path) { CompiledRule.default with excludeSet := some [] }
    simp only [CompiledRule.isCacheable, RegexLib.only, Option.any_some, beq_self_eq_true,
      if_true] at hsame
    by_contra hne
    simp [CompiledRule.default, Ne.symm hne] at hsame
  · rintro rfl lib rule
    rfl

/-- **Cacheability and the cached object.**  Two targets with one key are cached or not alike,
are treated alike, and neither is stored under the key of the other where that is excluded,
exactly when the rule's patterns, which are matched against the paths as they are spelled, stop
both of them or neither.  Under every rule that is so exactly when the targets spell one path,
as they do if both spell it in normal form and the query is not kept. -/
theorem cacheable_of_key {lib : RegexLib} {frontend : Frontend} {service host : String}
    {first second : String}
    (hservice : frontend.live.matcher.serviceFor host.toList = some service)
    (hkey : normalise service host first (frontend.ruleFor service) =
      normalise service host second (frontend.ruleFor service)) :
    ((frontend.ruleFor service).isCacheable lib (uriPath first) =
          (frontend.ruleFor service).isCacheable lib (uriPath second) ∧
        frontend.route lib host (uriPath first) first =
          frontend.route lib host (uriPath second) second ∧
        ((frontend.ruleFor service).isCacheable lib (uriPath first) = false → ∀ scheme,
          frontend.route lib host (uriPath second) second ≠
            .cached service (normalise service host first (frontend.ruleFor service)) scheme) ↔
      ((frontend.ruleFor service).Stops lib (uriPath first) ↔
        (frontend.ruleFor service).Stops lib (uriPath second))) ∧
    ((∀ lib (rule : CompiledRule),
        rule.isCacheable lib (uriPath first) = rule.isCacheable lib (uriPath second)) ↔
      uriPath first = uriPath second) ∧
    ((frontend.ruleFor service).keepQuery = false → InNormalForm (uriPath first) →
      InNormalForm (uriPath second) → uriPath first = uriPath second) := by
  rw [← CompiledRule.isCacheable_eq_false_iff, ← CompiledRule.isCacheable_eq_false_iff]
  refine ⟨⟨?_, fun hstops => ?_⟩, isCacheable_alike_iff, fun hkeep hfirst hsecond => ?_⟩
  · rintro ⟨hsame, -⟩
    rw [hsame]
  · have hsame : (frontend.ruleFor service).isCacheable lib (uriPath first) =
        (frontend.ruleFor service).isCacheable lib (uriPath second) := by
      rw [Bool.eq_iff_iff, ← Bool.not_eq_false, ← Bool.not_eq_false, hstops]
    have hroute : frontend.route lib host (uriPath first) first =
        frontend.route lib host (uriPath second) second := by
      simp only [Frontend.route, hservice, Frontend.decideUnder, hsame, hkey]
    refine ⟨hsame, hroute, fun hexcluded scheme => ?_⟩
    rw [hsame] at hexcluded
    simp [Frontend.route, hservice, Frontend.decideUnder, hexcluded]
  · obtain ⟨-, hpath⟩ := host_of_key hkey fun _ => rfl
    rw [hkeep, queryPart_false, queryPart_false, List.append_nil, List.append_nil] at hpath
    rw [← hfirst, ← hsecond, normalisePath_uriPath, normalisePath_uriPath]
    exact String.toList_inj.mp hpath

namespace Scenario

/-- A frontend for the one service, with a path it does not cache. -/
def excluding : Frontend where
  live := .new { services := [{ name := "cdn", description := "",
                                patterns := [.suffix "example.com".toList] }] }
  compiled := fun _ => some { CompiledRule.default with excludeSet := some ["/A"] }

/-- Two spellings of a path whose excluded letter neither of them shows. -/
theorem cacheable_of_key_escaped :
    excluding.route literalRegex "a.example.com" (uriPath "/%41") "/%41" =
      excluding.route literalRegex "a.example.com" (uriPath "//%41") "//%41" :=
  have hservice : excluding.live.matcher.serviceFor "a.example.com".toList = some "cdn" := by
    decide
  have hexact := (@cacheable_of_key literalRegex excluding "cdn" "a.example.com" "/%41" "//%41"
    hservice (by decide)).1.mpr (by
      rw [← CompiledRule.isCacheable_eq_false_iff, ← CompiledRule.isCacheable_eq_false_iff]
      decide)
  hexact.2.1

/-- An escaped letter passes the exclusion and is stored under the excluded path's key. -/
theorem excluded_path_stored :
    (excluding.ruleFor "cdn").keepQuery = false ∧
      excluding.route literalRegex "a.example.com" (uriPath "/A") "/A" = .uncached "cdn" ∧
      excluding.route literalRegex "a.example.com" (uriPath "/%41") "/%41" =
        .cached "cdn" (normalise "cdn" "a.example.com" "/A" (excluding.ruleFor "cdn")) "http" := by
  decide

end Scenario

end Cachic
