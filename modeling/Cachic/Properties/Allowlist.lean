import Cachic.Lib.Url
import Cachic.Proxy.Server

/-!
# The host that was authorised and the host that is dialled

The matcher reads a `Host` header as one name and looks for a pattern that covers it.  The URL
built from the same text is read again by the URL parser of the upstream client, and what is
dialled is the host that parser finds; where it finds none, nothing is dialled and the fetch
fails.  The two agree on the names that have only characters of a host and that the parser
writes as they are, and on no other: `dialled_host_iff`.

The parser is `reqwest::Url`, a parameter here (`UrlText.UrlLib`) of which only what the URL
standard says is assumed (`UrlLib.Standard`).
-/

namespace Cachic

open UrlText CharText

/-- The host `check_url` looks up and the client dials. -/
def dialledHost (lib : UrlLib) (url : String) : Except UpstreamError (List Char) :=
  match lib.host url.toList with
  | none => .error (.status url 400)
  | some host => .ok host

/-- A name that a URL parser finds in a URL as it was written there. -/
structure AsWritten (lib : UrlLib) (name : List Char) : Prop where
  clean : ∀ c ∈ name, hostChar c = true
  canonical : lib.canonical name = some name

section

variable {lib : UrlLib} {matcher : Matcher} {upstreamHttps : String → Bool}
  {host target service url : String}

theorem dialledHost_eq_ok_iff {name : List Char} :
    dialledHost lib url = .ok name ↔ lib.host url.toList = some name := by
  unfold dialledHost
  cases lib.host url.toList <;> simp

/-- Without ports, the URL is the scheme, the normalised host and the target. -/
theorem upstreamUrl_eq_some
    (h : upstreamUrl matcher false upstreamHttps host target = some (service, url)) :
    matcher.serviceFor host.toList = some service ∧
      ∃ scheme ∈ webSchemes, url.toList =
        build scheme (Matcher.normaliseHost host.toList) target.toList := by
  obtain ⟨found, hfound, hrest⟩ := Option.bind_eq_some_iff.mp h
  simp only [Bool.false_eq_true, if_false, Option.pure_def, Option.some.injEq,
    Prod.mk.injEq] at hrest
  obtain ⟨rfl, rfl⟩ := hrest
  refine ⟨hfound, (if upstreamHttps found then "https" else "http").toList, ?_,
    String.toList_ofList⟩
  split <;> decide

/-- No other character is lowered to a bracket. -/
theorem eq_of_toLower_bracket {c d : Char} (hd : d = '[' ∨ d = ']') (h : c.toLower = d) :
    c = d := by
  rcases toLower_eq_or c with hsame | ⟨hlow, -, hnat⟩
  · exact hsame.symm.trans h
  · rw [h] at hnat
    have hsmall : d.toNat ≤ 93 := by rcases hd with rfl | rfl <;> decide
    omega

/-- A normalised host has lost its brackets, or never had the closing one. -/
theorem not_mem_bracket_normaliseHost (host : List Char)
    (hhead : (Matcher.normaliseHost host).head? = some '[') :
    ']' ∉ Matcher.normaliseHost host := by
  unfold Matcher.normaliseHost at hhead ⊢
  dsimp only at hhead ⊢
  cases hbracket : stripStart ['['] (trim host) with
  | some rest =>
      intro hmem
      obtain ⟨c, hc, heq⟩ := List.mem_map.mp hmem
      obtain rfl := eq_of_toLower_bracket (.inr rfl) heq
      have hin := (List.rdropWhile_prefix (p := _) _).subset hc
      dsimp only at hin
      split at hin
      · next hsplit => exact (splitOnce_eq_some_iff.mp hsplit).2 hin
      · next hsplit => exact splitOnce_eq_none_iff.mp hsplit hin
  | none =>
      -- what does not begin with a bracket keeps its first character
      exfalso
      rw [hbracket] at hhead
      dsimp only at hhead
      obtain ⟨withoutPort, hstart, hhead⟩ : ∃ withoutPort, withoutPort <+: trim host ∧
          (asciiLower (withoutPort.rdropWhile fun c => c = '.')).head? = some '[' := by
        refine ⟨_, ?_, hhead⟩
        split
        · next before after hsplit =>
            obtain ⟨hsplit, -⟩ := rsplitOnce_eq_some_iff.mp hsplit
            split
            · exact ⟨':' :: after, hsplit.symm⟩
            · exact List.prefix_rfl
        · exact List.prefix_rfl
      rw [asciiLower, List.head?_map, Option.map_eq_some_iff] at hhead
      obtain ⟨c, hc, heq⟩ := hhead
      obtain rfl := eq_of_toLower_bracket (.inl rfl) heq
      obtain ⟨rest, hrest⟩ := List.head?_eq_some_iff.mp hc
      obtain ⟨more, hmore⟩ := (List.rdropWhile_prefix (p := _) withoutPort).trans hstart
      rw [hrest, List.cons_append] at hmore
      exact stripStart_eq_none_iff.mp hbracket (rest ++ more) hmore.symm

/-- A host of a service has a name. -/
theorem normaliseHost_ne_nil (h : matcher.serviceFor host.toList = some service) :
    Matcher.normaliseHost host.toList ≠ [] := by
  intro hnil
  unfold Matcher.serviceFor at h
  rw [if_pos hnil] at h
  cases h

/-- **The dialled host.**  For a matched request it is the authorised name exactly when that
name is one a URL parser finds as it was written; so whatever is dialled is the authorised name
exactly when the name is one, or the parser refuses the URL, so that nothing is dialled. -/
theorem dialled_host_iff {list : DomainList} (hlib : lib.Standard)
    (hroute : upstreamUrl (Matcher.build list) false upstreamHttps host target =
      some (service, url))
    (htarget : target.toList.head? = some '/') :
    (dialledHost lib url = .ok (Matcher.normaliseHost host.toList) ↔
        AsWritten lib (Matcher.normaliseHost host.toList)) ∧
      ((∀ name, dialledHost lib url = .ok name → name = Matcher.normaliseHost host.toList) ↔
        AsWritten lib (Matcher.normaliseHost host.toList) ∨ lib.host url.toList = none) := by
  obtain ⟨hservice, scheme, hscheme, hurl⟩ := upstreamUrl_eq_some hroute
  have hself : dialledHost lib url = .ok (Matcher.normaliseHost host.toList) ↔
      AsWritten lib (Matcher.normaliseHost host.toList) := by
    rw [dialledHost_eq_ok_iff, hurl, hlib.host_eq_self_iff hscheme (normaliseHost_ne_nil hservice)
      (not_mem_bracket_normaliseHost host.toList) htarget]
    exact ⟨fun h => ⟨h.1, h.2⟩, fun h => ⟨h.clean, h.canonical⟩⟩
  refine ⟨hself, ?_⟩
  -- what is left is whether the parser finds a host at all
  rw [← hself]
  unfold dialledHost
  cases lib.host url.toList <;> simp

/-- So a name a URL parser finds as it was written is dialled, and a pattern of the list covers
it. -/
theorem dialled_host_covered {list : DomainList} (hlib : lib.Standard)
    (hroute : upstreamUrl (Matcher.build list) false upstreamHttps host target =
      some (service, url))
    (htarget : target.toList.head? = some '/')
    (hname : AsWritten lib (Matcher.normaliseHost host.toList)) :
    ∃ name, dialledHost lib url = .ok name ∧
      ∃ listed ∈ list.services, listed.name = service ∧
        ∃ pattern ∈ listed.patterns, pattern.Covers name := by
  obtain ⟨hservice, scheme, hscheme, hurl⟩ := upstreamUrl_eq_some hroute
  refine ⟨Matcher.normaliseHost host.toList, ?_, Matcher.authorised_of_serviceFor hservice⟩
  rw [dialledHost_eq_ok_iff, hurl, hlib.host_eq_self_iff hscheme (normaliseHost_ne_nil hservice)
    (not_mem_bracket_normaliseHost host.toList) htarget]
  exact ⟨hname.clean, hname.canonical⟩

end

namespace Scenario

/-- A list of one service with one wildcard, and the file it comes from. -/
def domains : DomainList where
  services :=
    [{ name := "steam", description := "", patterns := [.suffix "steamcontent.com".toList] }]

theorem domains_parse :
    DomainList.parse [{ name := "steam", description := "", domainFiles := ["steam.txt"] }]
      (fun _ => some "*.steamcontent.com\n") = .ok domains := by
  rfl

/-- A parser that knows no user parts, ports or escapes: the authority is the host, or the URL is
refused. -/
def plainUrls : UrlLib where
  host := fun url =>
    match splitOnce ':' url with
    | some (_, rest) =>
        let authority := (rest.drop 2).takeWhile fun c => c ≠ '/' && c ≠ '?' && c ≠ '#' && c ≠ '\\'
        if authority.all hostChar then some authority else none
    | none => none
  canonical := some

theorem plainUrls_standard : plainUrls.Standard where
  clean := by
    intro scheme rest host hscheme hhost
    left
    simp only [plainUrls] at hhost
    split at hhost
    · split at hhost
      · next hall =>
          cases hhost
          exact List.all_eq_true.mp hall
      · cases hhost
    · cases hhost
  name := by
    intro scheme name path hscheme hname hclean hpath
    obtain ⟨rest, rfl⟩ := List.head?_eq_some_iff.mp hpath
    have hcolon : ':' ∉ scheme := by
      simp only [webSchemes, List.mem_cons, List.not_mem_nil, or_false] at hscheme
      rcases hscheme with rfl | rfl <;> decide
    have hsplit : splitOnce ':' (build scheme name ('/' :: rest)) =
        some (scheme, '/' :: '/' :: (name ++ '/' :: rest)) :=
      splitOnce_eq_some_iff.mpr ⟨by simp [build], hcolon⟩
    have hauthority : ((name ++ '/' :: rest).takeWhile
        fun c => c ≠ '/' && c ≠ '?' && c ≠ '#' && c ≠ '\\') = name := by
      rw [List.takeWhile_append_of_pos, List.takeWhile_cons, if_neg (by decide), List.append_nil]
      intro c hc
      have hchar := hclean c hc
      by_contra hstop
      simp only [Bool.and_eq_true, decide_eq_true_eq, not_and_or, not_not] at hstop
      rcases hstop with ((rfl | rfl) | rfl) | rfl <;> exact absurd hchar (by decide)
    have hall : name.all hostChar = true := List.all_eq_true.mpr hclean
    show (match splitOnce ':' (build scheme name ('/' :: rest)) with
      | some (_, rest) => _
      | none => none) = some name
    rw [hsplit]
    simp only [List.drop_succ_cons, List.drop_zero, hauthority, hall, if_true]

/-- A content host with a port is dialled without it. -/
theorem dialled_host_iff_port :
    dialledHost plainUrls "http://cdn.steamcontent.com/depot/a" =
      .ok (Matcher.normaliseHost "cdn.steamcontent.com:80".toList) :=
  (@dialled_host_iff plainUrls (fun _ => false) "cdn.steamcontent.com:80" "/depot/a" "steam"
    "http://cdn.steamcontent.com/depot/a" domains plainUrls_standard (by decide +kernel)
    (by decide)).1.mpr ⟨List.all_eq_true.mp (by decide), rfl⟩

/-- A host with a slash in it is matched by its end and dialled by its beginning. -/
theorem dialled_elsewhere :
    DomainList.parse [{ name := "steam", description := "", domainFiles := ["steam.txt"] }]
        (fun _ => some "*.steamcontent.com\n") = .ok domains ∧
      ∃ url, upstreamUrl (Matcher.build domains) false (fun _ => false) "evil.com/.steamcontent.com"
          "/depot/a" = some ("steam", url) ∧
        plainUrls.Standard ∧ dialledHost plainUrls url = .ok "evil.com".toList ∧
        Matcher.normaliseHost "evil.com/.steamcontent.com".toList ≠ "evil.com".toList :=
  ⟨domains_parse, "http://evil.com/.steamcontent.com/depot/a", by decide +kernel,
    plainUrls_standard, by decide +kernel, by decide +kernel⟩

end Scenario

end Cachic
