import Cachic.Lib.Json
import Cachic.Lib.Program
import Cachic.Services.Refresh

/-!
# Fetching the list of domains

A refresh fetches the index and every file the index names, and parses them together.  The
index is read twice: loosely, to learn which files to fetch, and strictly, as the list it is.

Reading JSON is the library's, `readJson` here, and a request is one action whose answer may
be anything.
-/

namespace Cachic

open ActionLang JsonText CharText

/-! ## The index -/

/-- A service of the index, as an object or as the array of its fields. -/
def RawService.decode : Json → Option RawService
  | .obj members => do
      let name ← Json.required Json.asStr members "name"
      let description ← Json.optional Json.asStr "" members "description"
      let domainFiles ← Json.required (Json.listOf Json.asStr) members "domain_files"
      return { name, description, domainFiles }
  | .arr [name, description, domainFiles] => do
      let name ← name.asStr
      let description ← description.asStr
      let domainFiles ← Json.listOf Json.asStr domainFiles
      return { name, description, domainFiles }
  | _ => none

/-- The index, strictly. -/
def decodeIndex : Json → Option (List RawService)
  | .obj members => Json.required (Json.listOf RawService.decode) members "cache_domains"
  | .arr [services] => Json.listOf RawService.decode services
  | _ => none

/-- The files an index names, loosely. -/
def namedFiles (named : Json) : List String :=
  (named.get "cache_domains").items.flatMap fun service =>
    (service.get "domain_files").items.filterMap Json.asStr

/-- Why a list could not be read. -/
inductive ListError
  | json
  | domains (e : DomainsError)
  deriving DecidableEq, Repr

section Lists

variable (readJson : String → Option Json)

/-- The list of an index and its files, from the text of the index. -/
def DomainList.parseText (index : String) (files : String → Option String) :
    Except ListError DomainList :=
  match (readJson index).bind decodeIndex with
  | none => .error .json
  | some services => (DomainList.parse services files).mapError .domains

end Lists

/-! ## The requests -/

/-- Every `.git` at the end of a text that is given backwards. -/
def dropGit : List Char → List Char
  | 't' :: 'i' :: 'g' :: '.' :: rest => dropGit rest
  | text => text

/-- Where a refresh fetches from, and how often, in nanoseconds. -/
structure RefreshSource where
  repo : String
  interval : ℕ

/-- Where the files of the repository are found. -/
def RefreshSource.rawBase (source : RefreshSource) : String :=
  let repo := (dropGit (source.repo.toList.rdropWhile fun c => c = '/').reverse).reverse
  match stripStart "https://github.com/".toList repo with
  | some path => "https://raw.githubusercontent.com/" ++ String.ofList path ++ "/master"
  | none => String.ofList repo

inductive RefreshError
  /-- a request failed, was answered by an error status or broke off -/
  | fetch (url source : String)
  | invalid (e : ListError)
  deriving DecidableEq, Repr

/-- The text a request is answered with. -/
abbrev Reply := Except String String

/-- Code that makes requests, each to a URL. -/
abbrev HttpTask := Prog String fun _ => Reply

/-- The network may answer anything. -/
def web (_url : String) (reply : Reply) (s : Unit) : Option (Reply × Unit) := some (reply, s)

/-- Fetch the files that are not there yet. -/
def fetchFiles (base : String) :
    List String → (String → Option String) → HttpTask (Except RefreshError (String → Option String))
  | [], files => return .ok files
  | name :: rest, files =>
      if (files name).isSome then fetchFiles base rest files
      else do
        let url := base ++ "/" ++ name
        match ← Prog.perform url with
        | .error e => return .error (.fetch url e)
        | .ok body => fetchFiles base rest (Function.update files name (some body))

/-- Fetch the list. -/
def RefreshSource.fetch (readJson : String → Option Json) (source : RefreshSource) :
    HttpTask (Except RefreshError DomainList) := do
  let base := source.rawBase
  let indexUrl := base ++ "/cache_domains.json"
  match ← Prog.perform indexUrl with
  | .error e => return .error (.fetch indexUrl e)
  | .ok index =>
      match readJson index with
      | none => return .error (.invalid .json)
      | some named =>
          match ← fetchFiles base (namedFiles named) fun _ => none with
          | .error e => return .error e
          | .ok files => return (DomainList.parseText readJson index files).mapError .invalid

/-! ## What a list depends on -/

section Parsing

variable {files files' : String → Option String}

theorem found_of_parseFiles {service : String} {names : List String} {patterns : List Pattern}
    (h : parseFiles files service names = .ok patterns) {name : String} (hname : name ∈ names) :
    (files name).isSome = true := by
  induction names generalizing patterns with
  | nil => cases hname
  | cons first rest ih =>
      rw [parseFiles] at h
      cases hfirst : files first with
      | none =>
          rw [hfirst] at h
          cases h
      | some body =>
          rw [hfirst] at h
          obtain ⟨_, -, h⟩ := ok_of_bind h
          obtain ⟨more, hrest, -⟩ := ok_of_bind h
          rcases List.mem_cons.mp hname with rfl | hlater
          · rw [hfirst]
            rfl
          · exact ih hrest hlater

theorem found_of_parseServices {services : List RawService} {parsed : List Service}
    (h : parseServices files services = .ok parsed) {name : String}
    (hname : name ∈ services.flatMap RawService.domainFiles) : (files name).isSome = true := by
  induction services generalizing parsed with
  | nil => cases hname
  | cons raw rest ih =>
      rw [parseServices] at h
      obtain ⟨service, hservice, h⟩ := ok_of_bind h
      obtain ⟨more, hrest, -⟩ := ok_of_bind h
      rw [List.flatMap_cons, List.mem_append] at hname
      rcases hname with hfirst | hlater
      · rw [RawService.parse] at hservice
        obtain ⟨patterns, hpatterns, -⟩ := ok_of_bind hservice
        exact found_of_parseFiles hpatterns hfirst
      · exact ih hrest hlater

/-- A list that was read names no file that is missing, and has a pattern. -/
theorem DomainList.of_parse {services : List RawService} {list : DomainList}
    (h : DomainList.parse services files = .ok list) :
    (∀ name ∈ services.flatMap RawService.domainFiles, (files name).isSome = true) ∧
      list.patternCount ≠ 0 := by
  rw [DomainList.parse] at h
  obtain ⟨parsed, hparsed, h⟩ := ok_of_bind h
  refine ⟨fun name hname => found_of_parseServices hparsed hname, ?_⟩
  split at h
  · cases h
  · next hnonempty =>
      cases h
      rwa [List.length_flatMap] at hnonempty

section Texts

variable {readJson : String → Option Json} {index : String} {named : Json}

end Texts

end Parsing

/-! ## A repository that does not change -/

section Served

variable {base : String} {server : String → Reply}

end Served

/-! ## A repository that changes as it is read -/

section Asked

variable {base : String}

/-- The files still to be fetched: each once, in the order in which they are named. -/
def unfetched (names : List String) (files : String → Option String) : List String :=
  (names.filter fun name => files name = none).eraseDups

variable {names : List String} {files : String → Option String} {name : String}
  {trace : List (Event String fun _ => Reply)}

theorem unfetched_cons_of_some (h : (files name).isSome = true) :
    unfetched (name :: names) files = unfetched names files := by
  have hne : files name ≠ none := Option.isSome_iff_ne_none.mp h
  rw [unfetched, List.filter_cons_of_neg (by simpa using hne), unfetched]

theorem unfetched_cons_of_none (h : files name = none) (body : String) :
    unfetched (name :: names) files =
      name :: unfetched names (Function.update files name (some body)) := by
  rw [unfetched, List.filter_cons_of_pos (by simpa using h), List.eraseDups_cons, unfetched,
    List.filter_filter]
  congr 2
  refine List.filter_congr fun other _ => ?_
  by_cases hother : other = name
  · simp [hother]
  · simp [hother]

/-- A file that is there is not to be fetched. -/
theorem ne_of_mem_unfetched {other : String} {body : String} (h : other ∈ unfetched names files)
    (hname : files name = some body) : other ≠ name := by
  rintro rfl
  have hnone := (List.mem_filter.mp (List.mem_eraseDups.mp h)).2
  simp [hname] at hnone

/-- A file asked for and sent. -/
def sentFile (base : String) (body : String → String) (name : String) :
    Event String fun _ => Reply :=
  ⟨base ++ "/" ++ name, .ok (body name)⟩

/-- Every file is asked for at most once, and a fetch that succeeds has them all. -/
theorem runs_fetchFiles {result : Except RefreshError (String → Option String)}
    (h : Prog.Runs web (fetchFiles base names files) () trace result ()) :
    trace.map Sigma.fst <+: (unfetched names files).map (fun name => base ++ "/" ++ name) ∧
      ∀ files', result = .ok files' → ∃ body : String → String,
        trace = (unfetched names files).map (sentFile base body) ∧
          files' = fun name => if name ∈ names ∧ files name = none then some (body name)
            else files name := by
  induction names generalizing files trace with
  | nil =>
      obtain ⟨rfl, rfl, -⟩ := Prog.runs_ret_iff.mp h
      refine ⟨List.nil_prefix, fun files' hfiles => ⟨fun _ => "", rfl, ?_⟩⟩
      cases hfiles
      simp
  | cons name rest ih =>
      rw [fetchFiles] at h
      split at h
      · next hknown =>
          obtain ⟨hasked, hsent⟩ := ih h
          rw [unfetched_cons_of_some hknown]
          refine ⟨hasked, fun files' hfiles => ?_⟩
          obtain ⟨body, htrace, rfl⟩ := hsent files' hfiles
          refine ⟨body, htrace, ?_⟩
          funext other
          by_cases hother : other = name
          · simp [hother, Option.isSome_iff_ne_none.mp hknown]
          · simp [hother]
      · next hnew =>
          have hnone : files name = none := by simpa using hnew
          obtain ⟨_, reply, _, later, hexec, rfl, hrest⟩ := Prog.runs_perform_bind_iff.mp h
          cases reply with
          | error e =>
              obtain ⟨rfl, rfl, -⟩ := Prog.runs_ret_iff.mp hrest
              rw [unfetched_cons_of_none hnone ""]
              refine ⟨List.prefix_append _ _, fun files' hfiles => ?_⟩
              cases hfiles
          | ok body =>
              obtain ⟨hasked, hsent⟩ := ih hrest
              rw [unfetched_cons_of_none hnone body]
              refine ⟨by simpa using hasked, fun files' hfiles => ?_⟩
              obtain ⟨bodies, htrace, rfl⟩ := hsent files' hfiles
              refine ⟨Function.update bodies name body, ?_, ?_⟩
              · rw [List.map_cons, htrace]
                congr 1
                · rw [sentFile, Function.update_self]
                · refine List.map_congr_left fun other hother => ?_
                  rw [sentFile, sentFile,
                    Function.update_of_ne (ne_of_mem_unfetched hother (Function.update_self ..))]
              · funext other
                by_cases hother : other = name
                · simp [hother, hnone]
                · simp [hother]

/-- A list is what one reading of the repository made of it: the index was asked for first, then
every file it names, each once, and the list is that of the texts they were answered with. -/
def Snapshot (readJson : String → Option Json) (source : RefreshSource)
    (trace : List (Event String fun _ => Reply)) (list : DomainList) : Prop :=
  ∃ index named, ∃ body : String → String, readJson index = some named ∧
    trace = ⟨source.rawBase ++ "/cache_domains.json", .ok index⟩ ::
      (namedFiles named).eraseDups.map (sentFile source.rawBase body) ∧
    DomainList.parseText readJson index
      (fun name => if name ∈ namedFiles named then some (body name) else none) = .ok list

theorem snapshot_of_runs {readJson : String → Option Json} {source : RefreshSource}
    {list : DomainList} (h : Prog.Runs web (source.fetch readJson) () trace (.ok list) ()) :
    Snapshot readJson source trace list := by
  rw [RefreshSource.fetch] at h
  obtain ⟨_, reply, _, later, -, rfl, hrun⟩ := Prog.runs_perform_bind_iff.mp h
  cases reply with
  | error e => cases (Prog.runs_ret_iff.mp hrun).2.1
  | ok index =>
      dsimp only at hrun
      cases hnamed : readJson index with
      | none =>
          rw [hnamed] at hrun
          cases (Prog.runs_ret_iff.mp hrun).2.1
      | some named =>
          rw [hnamed] at hrun
          obtain ⟨result, _, asked, rest, rfl, hfiles, hrest⟩ := Prog.runs_bind_iff.mp hrun
          cases result with
          | error e => cases (Prog.runs_ret_iff.mp hrest).2.1
          | ok files =>
              obtain ⟨rfl, hlist, -⟩ := Prog.runs_ret_iff.mp hrest
              obtain ⟨body, rfl, rfl⟩ := (runs_fetchFiles hfiles).2 files rfl
              have hall : unfetched (namedFiles named) (fun _ => none) =
                  (namedFiles named).eraseDups := by simp [unfetched]
              refine ⟨index, named, body, hnamed, by rw [hall, List.append_nil], ?_⟩
              simpa using mapError_eq_ok_iff.mp hlist.symm

/-- A list that was fetched can go live. -/
theorem Snapshot.usable {readJson : String → Option Json} {source : RefreshSource}
    {list : DomainList} (h : Snapshot readJson source trace list) : list.patternCount ≠ 0 := by
  obtain ⟨index, named, body, hnamed, -, hlist⟩ := h
  rw [DomainList.parseText, hnamed] at hlist
  cases hservices : decodeIndex named with
  | none =>
      simp [hservices] at hlist
  | some services =>
      simp only [Option.bind_some, hservices] at hlist
      exact (DomainList.of_parse (mapError_eq_ok_iff.mp hlist)).2

end Asked

end Cachic
