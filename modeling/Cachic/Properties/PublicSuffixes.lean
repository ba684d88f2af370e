import Cachic.Properties.HostMatching

/-!
# Wildcards and public suffixes

The list the matcher is built from has been read from files.  No wildcard of such a list stands
at a single label or at a known public suffix, however its line is spelled; and whatever a
`Host` header looks like, the parents of what is left of it after normalising are those of the
header.  So one label below a public suffix a host is authorised by name only
(`no_wildcard_at_public_suffix`).
-/

namespace Cachic

open CharText

/-! ## What a file can list -/

namespace Pattern

theorem isPublicSuffix_of_parse {raw parent : List Char}
    (h : Pattern.parse raw = some (.suffix parent)) : isPublicSuffix parent = false := by
  unfold Pattern.parse at h
  simp only at h
  split at h
  · cases h
  · split at h
    · split at h
      · cases h
      · next hpublic =>
          cases h
          exact Bool.eq_false_of_not_eq_true hpublic
    · split at h
      · cases h
      · cases h

/-- A pattern that a line of one word spells. -/
def Listed (pattern : Pattern) : Prop :=
  ∃ line, (∀ c ∈ line, isSpace c = false) ∧ Pattern.parse line = some pattern

end Pattern

theorem words_ne_nil {text : List Char} {c : Char} (hc : c ∈ text) (hspace : isSpace c = false) :
    words text ≠ [] := by
  induction text with
  | nil => cases hc
  | cons d text ih =>
      unfold words
      rw [List.splitOnP_cons_eq_if_modifyHead]
      split
      case isTrue hd =>
          have hmem : c ∈ text := by
            rcases List.mem_cons.mp hc with rfl | hmem
            · rw [hd] at hspace
              cases hspace
            · exact hmem
          rw [List.filter_cons_of_neg (by simp)]
          exact ih hmem
      case isFalse =>
          obtain ⟨first, more, hsplit⟩ :=
            List.exists_cons_of_ne_nil (List.splitOnP_ne_nil isSpace text)
          rw [hsplit, List.modifyHead_cons, List.filter_cons_of_pos (by simp)]
          exact List.cons_ne_nil _ _

/-- A trimmed line of at most one word has no white space in it: white space inside it would
have a word on either side. -/
theorem noSpace_of_words {raw : List Char} (h : (words (trim raw)).length ≤ 1) :
    ∀ c ∈ trim raw, isSpace c = false := by
  intro c hc
  by_contra hspace
  rw [Bool.not_eq_false] at hspace
  obtain ⟨front, back, hline⟩ := List.append_of_mem hc
  have hfront : front ≠ [] := by
    rintro rfl
    have hhead := head?_trim raw c (by rw [hline]; rfl)
    rw [hspace] at hhead
    cases hhead
  have hback : back ≠ [] := by
    rintro rfl
    have hlast := getLast?_trim raw c (by rw [hline]; simp)
    rw [hspace] at hlast
    cases hlast
  have hwords : words (trim raw) = words front ++ words back := by
    unfold words
    rw [hline, List.splitOnP_append_cons front back hspace, List.filter_append]
  have hfirst : words front ≠ [] := by
    obtain ⟨d, more, rfl⟩ := List.exists_cons_of_ne_nil hfront
    exact words_ne_nil List.mem_cons_self (head?_trim raw d (by rw [hline]; rfl))
  have hsecond : words back ≠ [] := by
    have hmem := List.getLast_mem hback
    refine words_ne_nil hmem (getLast?_trim raw _ ?_)
    rw [hline, List.getLast?_append_of_ne_nil _ (by simp), List.getLast?_cons_of_ne_nil hback,
      List.getLast?_eq_some_getLast hback]
    rfl
  have hpos := List.length_pos_of_ne_nil hfirst
  have hpos' := List.length_pos_of_ne_nil hsecond
  rw [hwords, List.length_append] at h
  omega

theorem listed_of_parseDomains {file : String} {number : ℕ} {lines : List (List Char)}
    {patterns : List Pattern} (h : parseDomains file number lines = .ok patterns) :
    ∀ pattern ∈ patterns, pattern.Listed := by
  induction lines generalizing number patterns with
  | nil =>
      cases h
      nofun
  | cons raw rest ih =>
      rw [parseDomains] at h
      split at h
      · exact ih h
      · split at h
        · cases h
        · next hwords =>
          split at h
          · cases h
          · next pattern hpattern =>
              cases hrest : parseDomains file (number + 1) rest with
              | error e =>
                  rw [hrest] at h
                  cases h
              | ok more =>
                  rw [hrest] at h
                  cases h
                  intro q hq
                  rcases List.mem_cons.mp hq with rfl | hq
                  · exact ⟨_, noSpace_of_words (by omega), hpattern⟩
                  · exact ih hrest q hq

theorem listed_of_parseFiles {files : String → Option String} {service : String}
    {names : List String} {patterns : List Pattern}
    (h : parseFiles files service names = .ok patterns) :
    ∀ pattern ∈ patterns, pattern.Listed := by
  induction names generalizing patterns with
  | nil =>
      cases h
      nofun
  | cons file rest ih =>
      rw [parseFiles] at h
      split at h
      · cases h
      · obtain ⟨first, hfirst, h⟩ := ok_of_bind h
        obtain ⟨more, hmore, h⟩ := ok_of_bind h
        cases h
        intro pattern hpattern
        rcases List.mem_append.mp hpattern with hin | hin
        · exact listed_of_parseDomains hfirst pattern hin
        · exact ih hmore pattern hin

theorem mem_of_mem_eraseReps {α : Type} [BEq α] {l : List α} {a : α} (h : a ∈ l.eraseReps) :
    a ∈ l := by
  have hloop : ∀ (rest : List α) (b : α) (done : List α),
      a ∈ List.eraseRepsBy.loop (fun x y => x == y) b rest done → a = b ∨ a ∈ rest ∨ a ∈ done := by
    intro rest
    induction rest with
    | nil =>
        intro b done hmem
        simpa [List.eraseRepsBy.loop, or_comm] using hmem
    | cons c rest ih =>
        intro b done hmem
        rw [List.eraseRepsBy.loop] at hmem
        split at hmem
        · have := ih b done hmem
          simp only [List.mem_cons]
          tauto
        · have := ih c (b :: done) hmem
          simp only [List.mem_cons] at this ⊢
          tauto
  cases l with
  | nil => cases h
  | cons b rest =>
      rcases hloop rest b [] h with rfl | hin | hin
      · exact List.mem_cons_self
      · exact List.mem_cons_of_mem b hin
      · cases hin

theorem listed_of_parseServices {files : String → Option String} {index : List RawService}
    {services : List Service} (h : parseServices files index = .ok services) :
    ∀ service ∈ services, ∀ pattern ∈ service.patterns, pattern.Listed := by
  induction index generalizing services with
  | nil =>
      cases h
      nofun
  | cons raw rest ih =>
      rw [parseServices] at h
      obtain ⟨first, hfirst, h⟩ := ok_of_bind h
      obtain ⟨more, hmore, h⟩ := ok_of_bind h
      cases h
      obtain ⟨patterns, hpatterns, hservice⟩ := ok_of_bind hfirst
      cases hservice
      intro service hservice pattern hpattern
      rcases List.mem_cons.mp hservice with rfl | hservice
      · exact listed_of_parseFiles hpatterns pattern
          ((List.mem_insertionSort _).mp (mem_of_mem_eraseReps hpattern))
      · exact ih hmore service hservice pattern hpattern

/-- Every pattern of a list that was accepted stands in one of its files. -/
theorem listed_of_parse {index : List RawService} {files : String → Option String}
    {list : DomainList} (h : DomainList.parse index files = .ok list) :
    ∀ service ∈ list.services, ∀ pattern ∈ service.patterns, pattern.Listed := by
  obtain ⟨services, hservices, h⟩ := ok_of_bind h
  split at h
  · cases h
  · cases h
    exact listed_of_parseServices hservices

/-! ## Public suffixes -/

theorem isPublicSuffix_of_no_dot {parent : List Char} (h : '.' ∉ parent) :
    Pattern.isPublicSuffix parent = true := by
  have hsplit : parent.splitOn '.' = [parent] :=
    List.splitOnP_eq_singleton fun c hc => by
      rw [beq_eq_false_iff_ne]
      rintro rfl
      exact h hc
  have hlabels := List.length_filter_le (fun label : List Char => label ≠ []) [parent]
  rw [Pattern.isPublicSuffix, hsplit, Bool.or_eq_true]
  left
  rw [decide_eq_true_eq]
  exact lt_of_le_of_lt hlabels (by simp)

/-- The known suffixes are two labels of small letters. -/
theorem publicSuffixes_spelling : ∀ known ∈ Pattern.publicSuffixes,
    known.toList.count '.' = 1 ∧
      known.toList.all fun c => c = '.' || (97 ≤ c.toNat && c.toNat ≤ 122) := by
  decide

/-- A small letter does not end a host. -/
theorem not_endsHost_of_small {c : Char} (hlow : 97 ≤ c.toNat) (hhigh : c.toNat ≤ 122) :
    ¬ EndsHost c := by
  rintro (hspace | rfl | rfl | rfl)
  · rw [isSpace_of_letter (by omega) hhigh] at hspace
    cases hspace
  · exact absurd hlow (by decide)
  · exact absurd hlow (by decide)
  · exact absurd hlow (by decide)

section Spelling

variable {text : List Char}
  (h : text.all fun c => c = '.' || (97 ≤ c.toNat && c.toNat ≤ 122))

include h

theorem small_of_spelling {c : Char} (hmem : c ∈ text) (hdot : c ≠ '.') :
    97 ≤ c.toNat ∧ c.toNat ≤ 122 := by
  have hc := List.all_eq_true.mp h c hmem
  simpa [hdot] using hc

theorem asciiLower_of_spelling : asciiLower text = text := by
  refine (List.map_congr_left fun c hc => ?_).trans (List.map_id text)
  by_cases hdot : c = '.'
  · rw [hdot]
    rfl
  · exact toLower_of_small (small_of_spelling h hc hdot).1

end Spelling

theorem isPublicSuffix_of_known {known : String} (h : known ∈ Pattern.publicSuffixes) :
    Pattern.isPublicSuffix known.toList = true := by
  rw [Pattern.isPublicSuffix, Bool.or_eq_true]
  right
  exact List.any_eq_true.mpr ⟨known, h, decide_eq_true rfl⟩

/-- A text that is cut at a dot of `x ++ '.' :: p` is cut within `p`, if `x` has none. -/
theorem cut_of_no_dot {x p front back : List Char} (hx : '.' ∉ x)
    (h : x ++ '.' :: p = front ++ '.' :: back) : p = back ∨ ∃ y, p = y ++ '.' :: back := by
  rcases List.append_eq_append_iff.mp h with ⟨more, -, hmore⟩ | ⟨more, hmore, hback⟩
  · cases more with
    | nil => exact .inl (List.cons.inj hmore).2
    | cons c y => exact .inr ⟨y, (List.cons.inj hmore).2⟩
  · cases more with
    | nil => exact .inl (List.cons.inj hback).2.symm
    | cons c y =>
        obtain ⟨rfl, -⟩ := List.cons.inj hback
        exact absurd (by rw [hmore]; simp) hx

/-- The parents of a host one label below a public suffix are public suffixes. -/
theorem isPublicSuffix_of_covers {x p parent : List Char} (hx : '.' ∉ x)
    (hp : '.' ∉ p ∨ ∃ known ∈ Pattern.publicSuffixes, known.toList = p)
    (hcovers : '.' :: parent <:+ Matcher.normaliseHost (x ++ '.' :: p)) :
    Pattern.isPublicSuffix parent = true := by
  obtain ⟨before, name, after, hhost, hname, -, hends⟩ :=
    Matcher.normaliseHost_part (x ++ '.' :: p)
  obtain ⟨front, hfront⟩ := hcovers
  rw [hname] at hfront
  obtain ⟨front', rest, rfl, -, rfl⟩ := asciiLower_eq_dot_append hfront.symm
  have hhost' : x ++ '.' :: p = (before ++ front') ++ '.' :: (rest ++ after) := by
    rw [hhost]
    simp only [List.append_assoc, List.cons_append]
  have hcut := cut_of_no_dot hx hhost'
  -- a parent without a dot is a single label
  have hlabel : '.' ∉ rest → Pattern.isPublicSuffix (asciiLower rest) = true := by
    intro hdot
    apply isPublicSuffix_of_no_dot
    intro hmem
    obtain ⟨c, hc, hlower⟩ := List.mem_map.mp hmem
    exact hdot (toLower_eq_dot hlower ▸ hc)
  rcases hp with hdot | ⟨known, hknown, rfl⟩
  · apply hlabel
    intro hrest
    rcases hcut with heq | ⟨y, heq⟩
    · exact hdot (heq ▸ List.mem_append_left after hrest)
    · exact hdot (heq ▸ by simp)
  · obtain ⟨hcount, hspelling⟩ := publicSuffixes_spelling known hknown
    by_cases hdot : '.' ∈ rest
    · have hone : 1 ≤ rest.count '.' := List.count_pos_iff.mpr hdot
      rcases hcut with heq | ⟨y, heq⟩
      · -- the parent holds the suffix's dot, and no letter behind it ends a host
        rw [heq, List.count_append] at hcount
        have hafter : after = [] := by
          cases after with
          | nil => rfl
          | cons c after =>
              have hc : c ≠ '.' := by
                rintro rfl
                rw [List.count_cons_self] at hcount
                omega
              have hsmall := small_of_spelling hspelling (by rw [heq]; simp) hc
              exact absurd (hends c rfl) (not_endsHost_of_small hsmall.1 hsmall.2)
        rw [hafter, List.append_nil] at heq
        rw [← heq, asciiLower_of_spelling hspelling]
        exact isPublicSuffix_of_known hknown
      · rw [heq, List.count_append, List.count_cons_self, List.count_append] at hcount
        omega
    · exact hlabel hdot

/-- **No wildcard reaches a public suffix**: what a list that was accepted matches one label
below a single label or a known public suffix, it lists by name. -/
theorem no_wildcard_at_public_suffix {index : List RawService} {files : String → Option String}
    {list : DomainList} (hparse : DomainList.parse index files = .ok list) {x p : List Char}
    (hx : x ≠ [] ∧ '.' ∉ x) (hp : '.' ∉ p ∨ ∃ known ∈ Pattern.publicSuffixes, known.toList = p)
    {name : String}
    (hmatch : (Matcher.build list).serviceFor (x ++ '.' :: p) = some name) :
    ∃ service ∈ list.services, service.name = name ∧
      .exact (Matcher.normaliseHost (x ++ '.' :: p)) ∈ service.patterns := by
  obtain ⟨service, hservice, hname, pattern, hpattern, hcovers⟩ :=
    Matcher.authorised_of_serviceFor hmatch
  refine ⟨service, hservice, hname, ?_⟩
  cases pattern with
  | exact n =>
      obtain rfl : Matcher.normaliseHost (x ++ '.' :: p) = n := hcovers
      exact hpattern
  | suffix parent =>
      obtain ⟨raw, -, hraw⟩ := listed_of_parse hparse service hservice _ hpattern
      have hpublic := isPublicSuffix_of_covers hx.2 hp hcovers
      rw [Pattern.isPublicSuffix_of_parse hraw] at hpublic
      cases hpublic

namespace Scenario

/-- A file with one line, and the list of it. -/
def oneLine : String → Option String
  | "hosts" => some "a.co.uk"
  | _ => none

def namedHost : DomainList where
  services := [{ name := "shop", description := "", patterns := [.exact "a.co.uk".toList] }]

theorem no_wildcard_at_public_suffix_named :
    (Matcher.build namedHost).serviceFor ("A".toList ++ '.' :: "co.uk".toList) = some "shop" ∧
      ∃ service ∈ namedHost.services, service.name = "shop" ∧
        .exact "a.co.uk".toList ∈ service.patterns :=
  have hmatch : (Matcher.build namedHost).serviceFor ("A".toList ++ '.' :: "co.uk".toList) =
    some "shop" := by decide
  ⟨hmatch, @no_wildcard_at_public_suffix [⟨"shop", "", ["hosts"]⟩] oneLine namedHost (by decide)
    "A".toList "co.uk".toList ⟨by decide, by decide⟩ (.inr ⟨"co.uk", by decide, rfl⟩) "shop"
    hmatch⟩

end Scenario

end Cachic
