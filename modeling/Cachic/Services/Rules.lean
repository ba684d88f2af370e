import Mathlib.Data.List.AList

/-!
# Rules for services

How a service's requests are keyed, cached and fetched.  Some services have a rule that is
shipped; an operator's file replaces a shipped rule as a whole, and its defaults are those of
every service without a rule of its own.  Reading that file is the TOML library's; the model
starts from the rules in it.
-/

namespace Cachic

/-- The rule of one service. -/
structure ServiceRule where
  keepQuery : Bool
  includeHost : Bool
  upstreamHttps : Bool
  includePaths : List String
  excludePaths : List String
  deriving DecidableEq, Repr

def ServiceRule.default : ServiceRule where
  keepQuery := false
  includeHost := false
  upstreamHttps := false
  includePaths := []
  excludePaths := []

/-- The rules as a whole. -/
structure Rules where
  defaults : ServiceRule
  services : AList fun _ : String => ServiceRule

namespace Rules

/-- An empty file. -/
def default : Rules := { defaults := .default, services := ∅ }

/-- A service's own rule, or the defaults. -/
def forService (rules : Rules) (service : String) : ServiceRule :=
  (rules.services.lookup service).getD rules.defaults

/-- A rule that only excludes. -/
def excluding (patterns : List String) : ServiceRule :=
  { ServiceRule.default with excludePaths := patterns }

/-- The rules before any file of an operator. -/
def shipped : Rules where
  defaults := .default
  services :=
    (((AList.insert "riot" (excluding ["releaselisting_", "\\.version$"]) ∅).insert
      "arenanet" (excluding ["^/latest64"])).insert
      "wsus" (excluding ["(?i)authrootstl\\.cab$", "(?i)pinrulesstl\\.cab$",
        "(?i)disallowedcertstl\\.cab$"])).insert
      "steam" (excluding ["^/server-status$"])

/-- An operator's rules over the shipped ones. -/
def merge (operator : Rules) : Rules where
  defaults := operator.defaults
  services := operator.services.entries.foldl (fun merged entry => merged.insert entry.1 entry.2)
    shipped.services

end Rules

end Cachic
