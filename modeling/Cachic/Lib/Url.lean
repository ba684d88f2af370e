import Cachic.Lib.Text

/-!
# The host of a URL

Code that builds a URL by writing a name between `scheme://` and a path has built a URL with that
name as its host only if the URL parser reads it so.  The parser is somebody else's: `UrlLib` is
any parser, and `UrlLib.Standard` what the URL standard says of the hosts it finds in web URLs.

* A host it gives out has no forbidden character (`hostChar`), unless it is an address in
  brackets.  So a name with a slash, an at-sign, a colon, a percent sign, white space and the
  like is never given out as it is: the parser stops at it, decodes it, drops it or fails.
* A name without such characters is the whole authority.  What is then given out is the name as
  a domain is written (`canonical`): mapped to lower case and to ASCII, a number written as an
  address, or nothing if that fails.

`host_eq_self_iff` is what follows from the two.  The standard's other rules (user parts, ports,
percent-encoding, address literals) are not assumed, because nothing rests on them.
-/

namespace UrlText

/-- A URL parser: the host of a URL that it takes, and how it writes a domain. -/
structure UrlLib where
  host : List Char → Option (List Char)
  canonical : List Char → Option (List Char)

/-- The characters a host can have: the visible ones of ASCII that do not stand for anything
else in a URL. -/
def hostChar (c : Char) : Bool :=
  33 ≤ c.toNat && c.toNat ≤ 126 &&
    !(['#', '%', '/', ':', '<', '>', '?', '@', '[', '\\', ']', '^', '|'].contains c)

/-- The schemes of the web. -/
def webSchemes : List (List Char) := ["http".toList, "https".toList]

/-- A URL made of a scheme, a name and a path. -/
def build (scheme name path : List Char) : List Char := scheme ++ "://".toList ++ name ++ path

/-- What the URL standard says of the hosts of web URLs. -/
structure UrlLib.Standard (lib : UrlLib) : Prop where
  clean : ∀ {scheme rest host}, scheme ∈ webSchemes →
    lib.host (scheme ++ "://".toList ++ rest) = some host →
    (∀ c ∈ host, hostChar c = true) ∨ host.head? = some '[' ∧ ']' ∈ host
  name : ∀ {scheme name path}, scheme ∈ webSchemes → name ≠ [] →
    (∀ c ∈ name, hostChar c = true) → path.head? = some '/' →
    lib.host (build scheme name path) = lib.canonical name

/-- The URL built from a scheme, a name and a path has that name as its host exactly when the
name has only characters of a host and is written as a domain is. -/
theorem UrlLib.Standard.host_eq_self_iff {lib : UrlLib} (h : lib.Standard)
    {scheme name path : List Char} (hscheme : scheme ∈ webSchemes) (hname : name ≠ [])
    (hbrackets : name.head? = some '[' → ']' ∉ name) (hpath : path.head? = some '/') :
    lib.host (build scheme name path) = some name ↔
      (∀ c ∈ name, hostChar c = true) ∧ lib.canonical name = some name := by
  constructor
  · intro hhost
    have hclean : ∀ c ∈ name, hostChar c = true := by
      rw [build, List.append_assoc] at hhost
      exact (h.clean hscheme hhost).resolve_right fun hin => hbrackets hin.1 hin.2
    exact ⟨hclean, (h.name hscheme hname hclean hpath).symm.trans hhost⟩
  · rintro ⟨hclean, hcanonical⟩
    exact (h.name hscheme hname hclean hpath).trans hcanonical

end UrlText
