import Cachic.Services.Matcher

/-!
# What the matcher decides

`longestMatch` is the rule the two tables of a `Matcher` are for, said without them: the last
service that lists the name itself, or else the last one that lists the longest wildcard above
it.  `host_matching` says that the tables and the walk over the parents follow it.
-/

namespace Cachic

open CharText

/-! ## The rule -/

/-- The name of the last service that lists a pattern. -/
def lastListing (services : List Service) (pattern : Pattern) : Option String :=
  ((services.filter fun service => pattern ∈ service.patterns).getLast?).map Service.name

/-- The parents of the wildcards of a list. -/
def wildcards (services : List Service) : List (List Char) :=
  services.flatMap fun service => service.patterns.filterMap fun
    | .exact _ => none
    | .suffix parent => some parent

/-- The longest wildcard a name ends in, behind a dot. -/
def longestWildcard (services : List Service) (name : List Char) : Option (List Char) :=
  ((wildcards services).filter fun parent => '.' :: parent <:+ name).argmax List.length

/-- The service of a host by the longest match. -/
def longestMatch (list : DomainList) (host : List Char) : Option String :=
  let name := Matcher.normaliseHost host
  if name = [] then none
  else
    match lastListing list.services (.exact name) with
    | some service => some service
    | none => (longestWildcard list.services name).bind fun parent =>
        lastListing list.services (.suffix parent)

theorem mem_wildcards {services : List Service} {parent : List Char} :
    parent ∈ wildcards services ↔ ∃ service ∈ services, .suffix parent ∈ service.patterns := by
  simp only [wildcards, List.mem_flatMap, List.mem_filterMap]
  constructor
  · rintro ⟨service, hservice, pattern, hpattern, hparent⟩
    cases pattern with
    | exact host => cases hparent
    | suffix p =>
        cases hparent
        exact ⟨service, hservice, hpattern⟩
  · rintro ⟨service, hservice, hpattern⟩
    exact ⟨service, hservice, .suffix parent, hpattern, rfl⟩

theorem lastListing_concat (services : List Service) (service : Service) (pattern : Pattern) :
    lastListing (services ++ [service]) pattern =
      if pattern ∈ service.patterns then some service.name else lastListing services pattern := by
  unfold lastListing
  rw [List.filter_append]
  by_cases h : pattern ∈ service.patterns
  · simp [h]
  · simp [h]

theorem lastListing_eq_none {services : List Service} {pattern : Pattern} :
    lastListing services pattern = none ↔ ∀ service ∈ services, pattern ∉ service.patterns := by
  simp [lastListing]

/-! ## What is left of a host -/

theorem toLower_eq_dot {c : Char} (h : c.toLower = '.') : c = '.' := by
  rcases toLower_eq_or c with hsame | hletter
  · exact hsame.symm.trans h
  · rw [h] at hletter
    have hdot : '.'.toNat = 46 := rfl
    omega

/-- The dots of a name in lower case are its own. -/
theorem asciiLower_eq_dot_append {name front rest : List Char}
    (h : asciiLower name = front ++ '.' :: rest) :
    ∃ front' rest', name = front' ++ '.' :: rest' ∧ asciiLower front' = front ∧
      asciiLower rest' = rest := by
  obtain ⟨front', tail, rfl, hfront, htail⟩ := List.map_eq_append_iff.mp h
  obtain ⟨c, rest', rfl, hc, hrest⟩ := List.map_eq_cons_iff.mp htail
  rw [toLower_eq_dot hc]
  exact ⟨front', rest', rfl, hfront, hrest⟩

/-- What ends the part of a host that is kept: white space, the bracket of an address, the
colon of a port or a dot at the end. -/
def EndsHost (c : Char) : Prop := isSpace c = true ∨ c = ']' ∨ c = ':' ∨ c = '.'

theorem head_append_of {P : Char → Prop} {front back : List Char} (hfront : ∀ c ∈ front, P c)
    (hback : ∀ c ∈ back.head?, P c) : ∀ c ∈ (front ++ back).head?, P c := by
  cases front with
  | nil => exact hback
  | cons d front =>
      intro c hc
      obtain rfl : d = c := by simpa using hc
      exact hfront d List.mem_cons_self

namespace Matcher

/-- The host without its port, as a part of the header. -/
theorem normaliseHost_cut (host : List Char) :
    ∃ before kept after, trim host = before ++ (kept ++ after) ∧
      (∀ c ∈ after.head?, EndsHost c) ∧
      normaliseHost host = asciiLower (kept.rdropWhile fun c => c = '.') := by
  unfold normaliseHost
  have hbracket : EndsHost ']' := .inr (.inl rfl)
  have hcolon : EndsHost ':' := .inr (.inr (.inl rfl))
  simp only
  split
  · next rest hrest =>
      have htrim := stripStart_eq_some_iff.mp hrest
      split
      · next inner after hsplit =>
          obtain ⟨rfl, -⟩ := splitOnce_eq_some_iff.mp hsplit
          exact ⟨['['], inner, ']' :: after, htrim, by simpa using hbracket, rfl⟩
      · exact ⟨['['], rest, [], by simpa using htrim, by simp, rfl⟩
  · split
    · next before after hsplit =>
        obtain ⟨htrim, -⟩ := rsplitOnce_eq_some_iff.mp hsplit
        split
        · exact ⟨[], before, ':' :: after, htrim, by simpa using hcolon, rfl⟩
        · exact ⟨[], trim host, [], by simp, by simp, rfl⟩
    · exact ⟨[], trim host, [], by simp, by simp, rfl⟩

/-- A normalised host is a part of the header in lower case, up to something that ends it. -/
theorem normaliseHost_part (host : List Char) :
    ∃ before name after, host = before ++ (name ++ after) ∧
      normaliseHost host = asciiLower name ∧ ¬ ['.'] <:+ name ∧
      ∀ c ∈ after.head?, EndsHost c := by
  obtain ⟨before, after, hhost, -, hspace⟩ := padded_trim host
  obtain ⟨before', kept, after', htrim, hafter', hname⟩ := normaliseHost_cut host
  obtain ⟨dots, hkept, hdots⟩ := rdropWhile_append (fun c => c = '.') kept
  refine ⟨before ++ before', kept.rdropWhile fun c => c = '.', dots ++ (after' ++ after), ?_,
    hname, ?_, ?_⟩
  · rw [hhost, htrim]
    conv_lhs => rw [hkept]
    simp only [List.append_assoc]
  · rintro ⟨front, hfront⟩
    have hne : kept.rdropWhile (fun c => decide (c = '.')) ≠ [] := by
      rw [← hfront]
      simp
    have hlast := List.rdropWhile_last_not (fun c => decide (c = '.')) kept hne
    simp [← hfront] at hlast
  · refine head_append_of (fun c hc => .inr (.inr (.inr (by simpa using hdots c hc)))) ?_
    cases after' with
    | nil => exact fun c hc => .inl (hspace c (List.mem_of_mem_head? hc))
    | cons c after' => exact hafter'

end Matcher

/-! ## The tables -/

namespace Matcher

/-- Where the tables say a pattern is listed. -/
def lookup (m : Matcher) : Pattern → Option ℕ
  | .exact host => m.exact host
  | .suffix parent => m.suffix parent

theorem lookup_insert (m : Matcher) (index : ℕ) (pattern other : Pattern) :
    (m.insert index pattern).lookup other =
      if other = pattern then some index else m.lookup other := by
  cases pattern with
  | exact host =>
      cases other with
      | exact host' => simp [insert, lookup, Function.update_apply]
      | suffix parent => simp [insert, lookup]
  | suffix parent =>
      cases other with
      | exact host => simp [insert, lookup]
      | suffix parent' => simp [insert, lookup, Function.update_apply]

theorem lookup_insert_all (index : ℕ) (patterns : List Pattern) (m : Matcher) (other : Pattern) :
    (patterns.foldl (insert index) m).lookup other =
      if other ∈ patterns then some index else m.lookup other := by
  induction patterns generalizing m with
  | nil => rfl
  | cons pattern rest ih =>
      rw [List.foldl_cons, ih, lookup_insert]
      by_cases hrest : other ∈ rest
      · simp [hrest]
      · simp [hrest]

theorem lookup_addService (m : Matcher) (service : Service) (pattern : Pattern) :
    (m.addService service).lookup pattern =
      if pattern ∈ service.patterns then some m.names.length else m.lookup pattern := by
  rw [← lookup_insert_all]
  cases pattern <;> rfl

/-- The name the tables give to a pattern. -/
def nameOf (m : Matcher) (pattern : Pattern) : Option String :=
  (m.lookup pattern).bind fun index => m.names[index]?

theorem Built.lists_of_lookup {services : List Service} {m : Matcher} (hm : Built services m)
    {pattern : Pattern} {index : ℕ} (h : m.lookup pattern = some index) :
    Lists services index pattern := by
  cases pattern with
  | exact host => exact hm.exact host index h
  | suffix parent => exact hm.suffix parent index h

/-- Where a pattern is found there is a name. -/
theorem Built.nameOf_eq_none {services : List Service} {m : Matcher} (hm : Built services m)
    (pattern : Pattern) : m.nameOf pattern = none ↔ m.lookup pattern = none := by
  unfold nameOf
  cases h : m.lookup pattern with
  | none => simp
  | some index =>
      obtain ⟨service, hservice, -⟩ := hm.lists_of_lookup h
      have hname : m.names[index]? = some service.name := by
        rw [hm.names, List.getElem?_map, hservice]
        rfl
      simp [hname]

theorem nameOf_addService {services : List Service} {m : Matcher} (hm : Built services m)
    (service : Service) (pattern : Pattern) :
    (m.addService service).nameOf pattern =
      if pattern ∈ service.patterns then some service.name else m.nameOf pattern := by
  have hnames : (m.addService service).names = m.names ++ [service.name] := by
    show (service.patterns.foldl (insert m.names.length) m).names ++ [service.name] = _
    rw [names_insert_all]
  unfold nameOf
  rw [lookup_addService, hnames]
  split
  · exact List.getElem?_concat_length
  · cases h : m.lookup pattern with
    | none => rfl
    | some index =>
        obtain ⟨listed, hlisted, -⟩ := hm.lists_of_lookup h
        have hlt : index < m.names.length := by
          rw [hm.names, List.length_map]
          exact (List.getElem?_eq_some_iff.mp hlisted).1
        exact List.getElem?_append_left hlt

/-- The tables name the last service that lists a pattern. -/
theorem nameOf_build (list : DomainList) (pattern : Pattern) :
    (build list).nameOf pattern = lastListing list.services pattern := by
  obtain ⟨services⟩ := list
  induction services using List.reverseRecOn with
  | nil => cases pattern <;> rfl
  | append_singleton services service ih =>
      have hbuild : build ⟨services ++ [service]⟩ = (build ⟨services⟩).addService service :=
        List.foldl_append
      rw [hbuild, nameOf_addService (built_build ⟨services⟩), ih, lastListing_concat]

/-! ## The walk over the parents -/

theorem parentIndex_of_longest {m : Matcher} {name parent : List Char} {index : ℕ}
    (hcovers : '.' :: parent <:+ name) (hne : parent ≠ []) (hparent : m.suffix parent = some index)
    (hlongest : ∀ other, '.' :: other <:+ name → m.suffix other ≠ none →
      other.length ≤ parent.length) : m.parentIndex name = some index := by
  induction name with
  | nil => exact absurd (List.suffix_nil.mp hcovers) (List.cons_ne_nil _ _)
  | cons c rest ih =>
      have hrest : '.' :: parent <:+ rest → m.parentIndex rest = some index := fun h =>
        ih h fun other hother => hlongest other (hother.trans (List.suffix_cons c rest))
      rw [parentIndex]
      rcases List.suffix_cons_iff.mp hcovers with heq | hlater
      · obtain ⟨rfl, rfl⟩ := List.cons.inj heq
        rw [if_pos rfl, if_neg hne, hparent]
      · split
        · next hdot =>
            have hlen := hlater.length_le
            rw [List.length_cons] at hlen
            have hnil : rest ≠ [] := List.length_pos_iff.mp (by omega)
            -- a longer wildcard would have been the longest
            have hnone : m.suffix rest = none := by
              by_contra hsome
              have hle := hlongest rest (hdot ▸ List.suffix_rfl) hsome
              omega
            rw [if_neg hnil, hnone]
            exact hrest hlater
        · exact hrest hlater

/-- A normalised host does not end in a dot. -/
theorem not_dot_suffix_normaliseHost (host : List Char) : ¬ ['.'] <:+ normaliseHost host := by
  obtain ⟨-, name, -, -, hname, hdot, -⟩ := normaliseHost_part host
  rw [hname]
  rintro ⟨front, hfront⟩
  obtain ⟨kept, rest, rfl, -, hrest⟩ := asciiLower_eq_dot_append hfront.symm
  obtain rfl := List.map_eq_nil_iff.mp hrest
  exact hdot ⟨kept, rfl⟩

theorem parentIndex_build (list : DomainList) {name : List Char} (hdot : ¬ ['.'] <:+ name) :
    (build list).parentIndex name =
      (longestWildcard list.services name).bind (build list).suffix := by
  have hbuilt := built_build list
  have hlisted : ∀ parent, (build list).suffix parent ≠ none →
      parent ∈ wildcards list.services := by
    intro parent hsome
    obtain ⟨index, hindex⟩ := Option.ne_none_iff_exists'.mp hsome
    obtain ⟨service, hservice, hpattern⟩ := hbuilt.suffix parent index hindex
    exact mem_wildcards.mpr ⟨service, List.mem_of_getElem? hservice, hpattern⟩
  cases hlongest : longestWildcard list.services name with
  | none =>
      have hnone := List.argmax_eq_none.mp hlongest
      show (build list).parentIndex name = none
      by_contra hsome
      obtain ⟨index, hindex⟩ := Option.ne_none_iff_exists'.mp hsome
      obtain ⟨parent, hcovers, hparent⟩ := parentIndex_eq_some hindex
      have hmem := hlisted parent (by rw [hparent]; exact Option.some_ne_none index)
      have hin : parent ∈ (wildcards list.services).filter fun p => '.' :: p <:+ name := by
        simpa using ⟨hmem, hcovers⟩
      rw [hnone] at hin
      cases hin
  | some parent =>
      have hmem := List.argmax_mem hlongest
      simp only [List.mem_filter, decide_eq_true_eq] at hmem
      obtain ⟨hwildcard, hcovers⟩ := hmem
      have hne : parent ≠ [] := by
        rintro rfl
        exact hdot hcovers
      have hlookup : (build list).suffix parent ≠ none := by
        intro hnone
        have hname := (hbuilt.nameOf_eq_none (.suffix parent)).mpr hnone
        rw [nameOf_build, lastListing_eq_none] at hname
        obtain ⟨service, hservice, hpattern⟩ := mem_wildcards.mp hwildcard
        exact hname service hservice hpattern
      obtain ⟨index, hindex⟩ := Option.ne_none_iff_exists'.mp hlookup
      show (build list).parentIndex name = (build list).suffix parent
      rw [hindex]
      refine parentIndex_of_longest hcovers hne hindex fun other hother hsome => ?_
      exact List.le_of_mem_argmax (by simpa using ⟨hlisted other hsome, hother⟩) hlongest

/-- The lookup of a name by the tables, in the words of the rule. -/
theorem serviceFor_build (list : DomainList) (host : List Char) :
    (build list).serviceFor host = longestMatch list host := by
  have hparents := parentIndex_build list (not_dot_suffix_normaliseHost host)
  have hexact := nameOf_build list (.exact (normaliseHost host))
  have hnone := (built_build list).nameOf_eq_none (.exact (normaliseHost host))
  unfold serviceFor longestMatch
  simp only
  by_cases hempty : normaliseHost host = []
  · rw [if_pos hempty, if_pos hempty]
  · rw [if_neg hempty, if_neg hempty, ← hexact]
    cases hindex : (build list).exact (normaliseHost host) with
    | none =>
        rw [hnone.mpr hindex, hparents, Option.bind_assoc]
        show (longestWildcard list.services _).bind _ = (longestWildcard list.services _).bind _
        congr 1
        funext parent
        exact nameOf_build list (.suffix parent)
    | some index =>
        have hname : (build list).nameOf (.exact (normaliseHost host)) =
            (build list).names[index]? := by
          show ((build list).exact (normaliseHost host)).bind _ = _
          rw [hindex]
          rfl
        have hsome : (build list).nameOf (.exact (normaliseHost host)) ≠ none := by
          rw [Ne, hnone]
          show (build list).exact (normaliseHost host) ≠ none
          rw [hindex]
          exact Option.some_ne_none index
        obtain ⟨name, hfound⟩ := Option.ne_none_iff_exists'.mp hsome
        rw [hfound]
        exact hname.symm.trans hfound

end Matcher

/-- **The matcher follows the longest match.**  In particular it matches a wildcard only to
what stands in front of its parent behind a dot, so neither to the parent itself nor inside a
label. -/
theorem host_matching (list : DomainList) (host : List Char) :
    (Matcher.build list).serviceFor host = longestMatch list host ∧
      ∀ name, (Matcher.build list).serviceFor host = some name →
        ∃ service ∈ list.services, service.name = name ∧
          (.exact (Matcher.normaliseHost host) ∈ service.patterns ∨
            ∃ parent, .suffix parent ∈ service.patterns ∧
              parent ≠ Matcher.normaliseHost host ∧
              '.' :: parent <:+ Matcher.normaliseHost host) := by
  refine ⟨Matcher.serviceFor_build list host, fun name h => ?_⟩
  obtain ⟨service, hservice, hname, pattern, hpattern, hcovers⟩ :=
    Matcher.authorised_of_serviceFor h
  refine ⟨service, hservice, hname, ?_⟩
  cases pattern with
  | exact n =>
      obtain rfl : Matcher.normaliseHost host = n := hcovers
      exact .inl hpattern
  | suffix parent =>
      refine .inr ⟨parent, hpattern, ?_, hcovers⟩
      rintro rfl
      exact absurd hcovers.length_le (by simp)

namespace Scenario

/-- A service at a wildcard and one at a longer wildcard. -/
def twoWildcards : DomainList where
  services :=
    [{ name := "wide", description := "", patterns := [.suffix "example.com".toList] },
      { name := "narrow", description := "", patterns := [.suffix "cdn.example.com".toList] }]

theorem host_matching_longer :
    longestMatch twoWildcards "A.cdn.example.com:80".toList = some "narrow" ∧
      ∃ service ∈ twoWildcards.services, service.name = "narrow" ∧
        (.exact "a.cdn.example.com".toList ∈ service.patterns ∨
          ∃ parent, .suffix parent ∈ service.patterns ∧ parent ≠ "a.cdn.example.com".toList ∧
            '.' :: parent <:+ "a.cdn.example.com".toList) :=
  ⟨(host_matching twoWildcards "A.cdn.example.com:80".toList).1.symm.trans (by decide),
    (host_matching twoWildcards "A.cdn.example.com:80".toList).2 "narrow" (by decide)⟩

end Scenario

end Cachic
