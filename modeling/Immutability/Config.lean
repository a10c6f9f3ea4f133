import Immutability.Registry
import Immutability.Severity
import Immutability.SkipPattern

/-! Configurations: which types are known to be immutable, what the rules weigh, and which types are
    not verified. -/

namespace Immutability

/-- A configuration. Its lists are kept as they are written, repetitions included. -/
structure Config where
  useDefaultRegistry : Bool := true
  knownImmutable : List String := []
  severities : Severities := .empty
  skipTypes : List String := []
  deriving DecidableEq

namespace Config

/-- The configuration that says nothing. -/
def default : Config := {}

/-- The name of the file in which a configuration is looked for. -/
def fileName : String := "immutcheck.toml"

/-- The known types: those of the configuration and, unless it forgoes them, those of the library. -/
def registry (c : Config) : Registry :=
  (if c.useDefaultRegistry then Registry.library else .empty).extend c.knownImmutable

end Config

end Immutability
