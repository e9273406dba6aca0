import LuaTyping.Feature
import LuaTyping.Guard
import LuaTyping.Index.Basic

/-!
# Analyzer configuration

A configuration states the precedence of features, weakest first, and the
limits of a supertype search.  It is valid if the precedence names every
feature exactly once and neither limit is zero.  Searches are given the
profile of a configuration, which passes its limits on.
-/

namespace LuaTyping

/-- The settings of an analyzer. -/
structure Config where
  /-- The features in order of precedence, weakest first. -/
  featurePrecedence : List Feature
  supertypeSearch : Limits
  deriving DecidableEq, Repr

namespace Config

/-- The settings that apply unless something else is configured. -/
def standard : Config where
  featurePrecedence := Precedence.standard.order
  supertypeSearch := .supertypeSearch

/-- The usual name of a configuration file. -/
def fileName : String := ".luals.json"

/-- Why a configuration is not valid. -/
inductive Defect where
  /-- The precedence does not name every feature exactly once. -/
  | precedence (order : List Feature)
  | zeroDepth
  | zeroIterations
  deriving DecidableEq, Repr

/-- A list of features as diagnostics show it. -/
def featureList (features : List Feature) : String :=
  "[" ++ ", ".intercalate (features.map Feature.label) ++ "]"

namespace Defect

/-- The report of a defect. -/
def message : Defect → String
  | .precedence order =>
      "featurePrecedence must list each of " ++
        ", ".intercalate (Feature.all.map Feature.word) ++
        " exactly once, got " ++ featureList order
  | .zeroDepth => "supertypeSearch.maxDepth must be at least 1"
  | .zeroIterations => "supertypeSearch.maxIterations must be at least 1"

end Defect

/-- The first defect of a configuration, if it has one. -/
def defect? (config : Config) : Option Defect :=
  if (Precedence.ofOrder? config.featurePrecedence).isNone then
    some (.precedence config.featurePrecedence)
  else if config.supertypeSearch.maxDepth = 0 then
    some .zeroDepth
  else if config.supertypeSearch.maxIterations = 0 then
    some .zeroIterations
  else
    none

/-- The precedence in effect: the configured one, or the standard one if the
list does not name every feature exactly once. -/
def precedence (config : Config) : Precedence :=
  (Precedence.ofOrder? config.featurePrecedence).getD .standard

/-- An index without contributions that follows the precedence in effect. -/
def emptyIndex (config : Config) : Index :=
  .empty config.precedence

/-- The profile of a supertype search: the usual one if the limits are the
usual ones, else one of its own. -/
def searchProfile (config : Config) : Profile :=
  if config.supertypeSearch.maxDepth = Limits.supertypeSearch.maxDepth ∧
      config.supertypeSearch.maxIterations =
        Limits.supertypeSearch.maxIterations then
    .supertypeSearch
  else
    .custom config.supertypeSearch.maxDepth
      config.supertypeSearch.maxIterations

/-- Either way, a search runs under the configured limits. -/
@[simp]
theorem limits_searchProfile (config : Config) :
    config.searchProfile.limits = config.supertypeSearch := by
  unfold searchProfile
  split
  · rename_i usual
    change Limits.mk Limits.supertypeSearch.maxDepth
      Limits.supertypeSearch.maxIterations = config.supertypeSearch
    rw [← usual.1, ← usual.2]
  · rfl

/-- The search profile as diagnostics show it. -/
def describeProfile (config : Config) : String :=
  config.searchProfile.describe

/-- The whole configuration as diagnostics show it. -/
def describe (config : Config) : String :=
  "AnalyzerConfig \x7b feature_precedence: " ++
    featureList config.featurePrecedence ++
    ", supertype_search: SupertypeSearchConfig \x7b " ++
    config.supertypeSearch.describe ++ " \x7d \x7d"

end Config

end LuaTyping
