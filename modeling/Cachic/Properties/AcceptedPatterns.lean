import Cachic.Properties.PublicSuffixes

/-!
# Patterns that match

The list and the matcher normalise names each in its own way.  The list trims a line, drops the
dots at its end and writes it in lower case; the matcher also takes the brackets off an address
and a port off its end.  A line that has either is accepted and made a pattern that the matcher
will not look up (`normaliseHost_eq_self_iff`); every other pattern of an accepted list matches
what it stands for.
-/

namespace Cachic

open CharText

/-- A name without a bracket at the start or a port at the end. -/
def Portless (name : List Char) : Prop :=
  name.head? ≠ some '[' ∧ ∀ host port, name = host ++ ':' :: port → ¬ ∀ c ∈ port, c.isDigit = true

/-- A name as the list writes it: one word in lower case with no dot at the end. -/
structure Written (name : List Char) : Prop where
  noSpace : ∀ c ∈ name, isSpace c = false
  lower : asciiLower name = name
  noDot : name.getLast? ≠ some '.'

theorem Written.rdropWhile_eq {name : List Char} (h : Written name) :
    name.rdropWhile (fun c => c = '.') = name := by
  rw [List.rdropWhile_eq_self_iff]
  intro hne hdot
  exact h.noDot (by rw [List.getLast?_eq_some_getLast hne, of_decide_eq_true hdot])

/-- What is made of a shorter text is not the name. -/
theorem asciiLower_rdropWhile_ne {text name : List Char} (hlt : text.length < name.length) :
    asciiLower (text.rdropWhile fun c => c = '.') ≠ name := by
  intro heq
  have hlen := (List.rdropWhile_prefix (fun c => decide (c = '.')) (l := text)).length_le
  have hname := congrArg List.length heq
  rw [asciiLower, List.length_map] at hname
  omega

/-- A host the list would write is left alone by the matcher unless it has a bracket or a port. -/
theorem normaliseHost_eq_self_iff {name : List Char} (h : Written name) :
    Matcher.normaliseHost name = name ↔ Portless name := by
  unfold Matcher.normaliseHost Portless
  simp only [trim_of_noSpace h.noSpace]
  cases hbracket : stripStart ['['] name with
  | some rest =>
      obtain rfl := stripStart_eq_some_iff.mp hbracket
      refine iff_of_false ?_ fun hport => hport.1 rfl
      simp only
      split
      case h_1 inner behind hclose =>
          obtain ⟨hrest, -⟩ := splitOnce_eq_some_iff.mp hclose
          exact asciiLower_rdropWhile_ne (by simp [hrest])
      case h_2 => exact asciiLower_rdropWhile_ne (by simp)
  | none =>
      have hhead : name.head? ≠ some '[' := fun hhead => by
        obtain ⟨rest, hrest⟩ := List.head?_eq_some_iff.mp hhead
        exact stripStart_eq_none_iff.mp hbracket rest hrest
      have hself : asciiLower (name.rdropWhile fun c => c = '.') = name := by
        rw [h.rdropWhile_eq, h.lower]
      simp only
      split
      case h_1 host port hcolon =>
          obtain ⟨hname, hport⟩ := rsplitOnce_eq_some_iff.mp hcolon
          split
          case isTrue hdigits =>
              refine iff_of_false (asciiLower_rdropWhile_ne (by simp [hname])) fun hport => ?_
              exact hport.2 host port hname (List.all_eq_true.mp hdigits)
          case isFalse hdigits =>
              refine iff_of_true hself ⟨hhead, fun host' port' hname' hall => hdigits ?_⟩
              have hport' : ':' ∉ port' := fun hmem => absurd (hall ':' hmem) (by decide)
              have hsplit := rsplitOnce_eq_some_iff.mpr ⟨hname', hport'⟩
              rw [hcolon, Option.some.injEq, Prod.mk.injEq] at hsplit
              rw [List.all_eq_true, hsplit.2]
              exact hall
      case h_2 hcolon =>
          refine iff_of_true hself ⟨hhead, ?_⟩
          rintro host port rfl
          exact absurd (rsplitOnce_eq_none_iff.mp hcolon) (by simp)

/-! ## The patterns of a list -/

namespace Pattern

/-- A host the pattern should match. -/
def sample : Pattern → List Char
  | .exact host => host
  | .suffix parent => "probe.".toList ++ parent

end Pattern

/-- What the list makes of a line of one word. -/
theorem written_of_line {line : List Char} (hline : ∀ c ∈ line, isSpace c = false) :
    Written (asciiLower ((trim line).rdropWhile fun c => c = '.')) where
  noSpace := by
    intro c hc
    obtain ⟨d, hd, rfl⟩ := List.mem_map.mp hc
    exact (isSpace_toLower d).trans
      (hline d (mem_of_mem_trim ((List.rdropWhile_prefix _ _).subset hd)))
  lower := by
    rw [asciiLower, asciiLower, List.map_map]
    exact List.map_congr_left fun c _ => toLower_toLower c
  noDot := by
    rw [asciiLower, List.getLast?_map, Ne, Option.map_eq_some_iff]
    rintro ⟨c, hc, hlower⟩
    obtain rfl := toLower_eq_dot hlower
    have hne : (trim line).rdropWhile (fun c => decide (c = '.')) ≠ [] := by
      rintro hnil
      rw [hnil] at hc
      cases hc
    have hlast := List.rdropWhile_last_not _ _ hne
    rw [List.getLast?_eq_some_getLast hne, Option.some.injEq] at hc
    simp [hc] at hlast

/-- A name in front of a written one, behind a dot, is a written one. -/
theorem Written.probe {parent : List Char} (h : Written ("*.".toList ++ parent))
    (hne : parent ≠ []) : Written ("probe.".toList ++ parent) where
  noSpace := by
    intro c hc
    rcases List.mem_append.mp hc with hc | hc
    · have hprobe : ("probe.".toList.all fun c => !isSpace c) = true := by decide
      simpa using List.all_eq_true.mp hprobe c hc
    · exact h.noSpace c (List.mem_append_right _ hc)
  lower := by
    have hlower := h.lower
    rw [asciiLower, List.map_append] at hlower ⊢
    rw [List.append_inj_right hlower (by simp)]
    rfl
  noDot := by
    have hdot := h.noDot
    rw [List.getLast?_append_of_ne_nil _ hne] at hdot ⊢
    exact hdot

/-- The host a listed pattern should match is one the list would write. -/
theorem Pattern.Listed.written {pattern : Pattern} (h : pattern.Listed) :
    Written pattern.sample ∧ pattern.sample ≠ [] := by
  obtain ⟨line, hline, hparse⟩ := h
  have hwritten := written_of_line hline
  unfold Pattern.parse at hparse
  simp only at hparse
  split at hparse
  case isTrue => cases hparse
  case isFalse hne =>
      split at hparse
      case h_1 c rest hstrip =>
          split at hparse
          case isTrue => cases hparse
          case isFalse =>
              cases hparse
              rw [stripStart_eq_some_iff.mp hstrip] at hwritten
              exact ⟨hwritten.probe (List.cons_ne_nil c rest),
                List.append_ne_nil_of_left_ne_nil (by decide) _⟩
      case h_2 =>
          split at hparse
          case isTrue => cases hparse
          case isFalse =>
              cases hparse
              exact ⟨hwritten, hne⟩

theorem isSome_lastListing {services : List Service} {service : Service} {pattern : Pattern}
    (hservice : service ∈ services) (hpattern : pattern ∈ service.patterns) :
    (lastListing services pattern).isSome := by
  rw [Option.isSome_iff_ne_none, Ne, lastListing_eq_none]
  exact fun h => h service hservice hpattern

/-- A pattern of a list matches a name that normalising leaves alone, if it covers it. -/
theorem isSome_longestMatch {list : DomainList} {service : Service} {pattern : Pattern}
    {name : List Char} (hservice : service ∈ list.services) (hpattern : pattern ∈ service.patterns)
    (hself : Matcher.normaliseHost name = name) (hne : name ≠ []) (hcovers : pattern.Covers name) :
    (longestMatch list name).isSome := by
  unfold longestMatch
  simp only [hself, if_neg hne]
  cases hexact : lastListing list.services (.exact name) with
  | some found => rfl
  | none =>
      cases pattern with
      | exact host =>
          obtain rfl : name = host := hcovers
          exact absurd hpattern (lastListing_eq_none.mp hexact service hservice)
      | suffix parent =>
          have hmem : parent ∈ (wildcards list.services).filter
              fun parent => '.' :: parent <:+ name := by
            rw [List.mem_filter, mem_wildcards]
            exact ⟨⟨service, hservice, hpattern⟩, decide_eq_true hcovers⟩
          cases hlongest : longestWildcard list.services name with
          | none =>
              rw [longestWildcard, List.argmax_eq_none] at hlongest
              rw [hlongest] at hmem
              cases hmem
          | some longest =>
              have hwild := List.mem_of_mem_filter (List.argmax_mem hlongest)
              obtain ⟨other, hother, hlisted⟩ := mem_wildcards.mp hwild
              exact isSome_lastListing hother hlisted

/-- **Every accepted pattern matches**, unless it has a bracket at the start or a port at the
end: the host it should match is left alone by normalising and belongs to some service. -/
theorem accepted_patterns_match {index : List RawService} {files : String → Option String}
    {list : DomainList} (hparse : DomainList.parse index files = .ok list) {service : Service}
    {pattern : Pattern} (hservice : service ∈ list.services)
    (hpattern : pattern ∈ service.patterns) (hport : Portless pattern.sample) :
    Matcher.normaliseHost pattern.sample = pattern.sample ∧
      ((Matcher.build list).serviceFor pattern.sample).isSome := by
  obtain ⟨hwritten, hne⟩ := (listed_of_parse hparse service hservice pattern hpattern).written
  have hself := (normaliseHost_eq_self_iff hwritten).mpr hport
  refine ⟨hself, ?_⟩
  rw [Matcher.serviceFor_build]
  refine isSome_longestMatch hservice hpattern hself hne ?_
  cases pattern with
  | exact host => rfl
  | suffix parent => exact List.suffix_append "probe".toList ('.' :: parent)

namespace Scenario

/-- A file with a wildcard, and one with a name and a port. -/
def twoFiles : String → Option String
  | "hosts" => some "*.example.com"
  | "ports" => some "cdn.example.com:80"
  | _ => none

def wildcardList : DomainList where
  services := [{ name := "cdn", description := "", patterns := [.suffix "example.com".toList] }]

def portList : DomainList where
  services :=
    [{ name := "cdn", description := "", patterns := [.exact "cdn.example.com:80".toList] }]

theorem accepted_patterns_match_wildcard :
    ((Matcher.build wildcardList).serviceFor "probe.example.com".toList).isSome := by
  have hparse : DomainList.parse [⟨"cdn", "", ["hosts"]⟩] twoFiles = .ok wildcardList := by decide
  have hport : Portless (Pattern.suffix "example.com".toList).sample := by
    refine ⟨by decide, fun host port hname _ => ?_⟩
    have hcolon : ':' ∈ (Pattern.suffix "example.com".toList).sample := by
      rw [hname]
      simp
    exact absurd hcolon (by decide)
  exact (accepted_patterns_match hparse List.mem_cons_self List.mem_cons_self hport).2

/-- A name with a port is accepted, and is not found for the host it names, with the port or
without. -/
theorem accepted_port_unmatched :
    DomainList.parse [⟨"cdn", "", ["ports"]⟩] twoFiles = .ok portList ∧
      (Matcher.build portList).serviceFor "cdn.example.com:80".toList = none ∧
      (Matcher.build portList).serviceFor "cdn.example.com".toList = none := by
  decide

end Scenario

end Cachic
