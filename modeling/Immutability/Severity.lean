import Immutability.Keyed

/-! How much a violation weighs, and the table that reweighs rules. -/

namespace Immutability

/-- The weight of a diagnostic, from the lightest to the heaviest. -/
inductive Severity where | note | warn | error
  deriving DecidableEq

namespace Severity

/-- The severities from the lightest to the heaviest. -/
def all : List Severity := [note, warn, error]

/-- The name of a severity. -/
def name : Severity → String
  | note => "note"
  | warn => "warn"
  | error => "error"

/-- The place of a severity among all. -/
def rank : Severity → Nat
  | note => 0
  | warn => 1
  | error => 2

instance : Ord Severity := ⟨fun a b => compare a.rank b.rank⟩

end Severity

/-- A table from the codes of rules to severities. Codes of no rule may stand in it and have no
    effect. -/
abbrev Severities := Keyed Severity

end Immutability
