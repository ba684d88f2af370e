import Cachic.Headers

/-!
# The list of cached domains

A service is named together with files of host names, one a line, `#` for
comments and `*.` for a wildcard.  The list decides which hosts the cache will
fetch from, so a file with one bad line is rejected whole, and so is a list
without any pattern.  Decoding the index from JSON is the JSON library's; the
model starts from the decoded index.
-/

namespace Cachic

open CharText

/-- One host name pattern. -/
inductive Pattern
  | exact (host : List Char)
  /-- Any subdomain of the parent. -/
  | suffix (parent : List Char)
  deriving DecidableEq, Repr

namespace Pattern

/-- Public suffixes a wildcard may not be rooted at. -/
def publicSuffixes : List String :=
  ["co.uk", "org.uk", "ac.uk", "gov.uk", "me.uk", "net.uk", "sch.uk", "com.au", "net.au",
    "org.au", "edu.au", "gov.au", "co.nz", "net.nz", "org.nz", "co.jp", "ne.jp", "or.jp",
    "ac.jp", "go.jp", "com.br", "net.br", "org.br", "com.cn", "net.cn", "org.cn", "com.mx",
    "com.ar", "com.tr", "com.sg", "com.hk", "com.tw", "com.my", "com.ph", "com.vn", "co.kr",
    "co.za", "co.in", "co.il", "co.th", "com.pl", "com.ua", "com.ru"]

/-- Whether a wildcard at this parent would cover names anybody can register. -/
def isPublicSuffix (parent : List Char) : Bool :=
  ((parent.splitOn '.').filter fun label => label ≠ []).length < 2 ||
    publicSuffixes.any fun known => known.toList = parent

/-- Read one line.  A wildcard without a parent, or at a public suffix, is not a
host name. -/
def parse (raw : List Char) : Option Pattern :=
  let host := asciiLower ((trim raw).rdropWhile fun c => c = '.')
  if host = [] then none
  else
    match stripStart ['*', '.'] host with
    | some (c :: rest) =>
        if isPublicSuffix (c :: rest) then none else some (.suffix (c :: rest))
    -- what is left of the wildcards has no parent
    | _ => if host.head? = some '*' then none else some (.exact host)

/-- The order of two texts by their characters. -/
def textLe : List Char → List Char → Bool
  | [], _ => true
  | _ :: _, [] => false
  | a :: as, b :: bs => a.toNat < b.toNat || a = b && textLe as bs

/-- The derived order: exact names first, each kind by its text. -/
def le : Pattern → Pattern → Bool
  | .exact a, .exact b => textLe a b
  | .exact _, .suffix _ => true
  | .suffix _, .exact _ => false
  | .suffix a, .suffix b => textLe a b

end Pattern

/-- A service and the host names that belong to it. -/
structure Service where
  name : String
  description : String
  patterns : List Pattern
  deriving DecidableEq, Repr

/-- The whole list. -/
structure DomainList where
  services : List Service
  deriving DecidableEq, Repr

/-- A service as the index lists it. -/
structure RawService where
  name : String
  description : String
  domainFiles : List String
  deriving DecidableEq, Repr

/-- What is wrong with a line: more than one word, or not a host name. -/
inductive LineFault
  | notOneWord (line : List Char)
  | notHostname (line : List Char)
  deriving DecidableEq, Repr

inductive DomainsError
  | missingFile (service file : String)
  | malformed (file : String) (line : ℕ) (fault : LineFault)
  | empty
  deriving DecidableEq, Repr

/-- The words of a line. -/
def words (line : List Char) : List (List Char) :=
  (line.splitOnP isSpace).filter fun word => word ≠ []

/-- The patterns of a file, from line `number` on. -/
def parseDomains (file : String) : ℕ → List (List Char) → Except DomainsError (List Pattern)
  | _, [] => .ok []
  | number, raw :: rest =>
      let line := trim raw
      if line = [] || line.head? = some '#' then parseDomains file (number + 1) rest
      else if (words line).length > 1 then .error (.malformed file number (.notOneWord line))
      else
        match Pattern.parse line with
        | none => .error (.malformed file number (.notHostname line))
        | some pattern => (parseDomains file (number + 1) rest).map fun more => pattern :: more

/-- The patterns of a service, file by file. -/
def parseFiles (files : String → Option String) (service : String) :
    List String → Except DomainsError (List Pattern)
  | [] => .ok []
  | file :: rest => do
      match files file with
      | none => .error (.missingFile service file)
      | some body =>
          let patterns ← parseDomains file 1 (lines body.toList)
          let more ← parseFiles files service rest
          return patterns ++ more

/-- One service, its patterns sorted and without repetitions. -/
def RawService.parse (files : String → Option String) (raw : RawService) :
    Except DomainsError Service := do
  let patterns ← parseFiles files raw.name raw.domainFiles
  return { name := raw.name
           description := raw.description
           patterns := (patterns.insertionSort fun a b => Pattern.le a b).eraseReps }

def parseServices (files : String → Option String) :
    List RawService → Except DomainsError (List Service)
  | [] => .ok []
  | raw :: rest => do
      let service ← raw.parse files
      let more ← parseServices files rest
      return service :: more

/-- The list of an index and its files. -/
def DomainList.parse (index : List RawService) (files : String → Option String) :
    Except DomainsError DomainList := do
  let services ← parseServices files index
  if (services.flatMap Service.patterns).length = 0 then .error .empty
  else return { services := services }

end Cachic
