import Immutability.Declaration
import Immutability.Severity

/-! Diagnostics: which rule was broken, where, how much it weighs, and the evidence. -/

namespace Immutability

/-! ### Rules -/

/-- A rule of immutability, in the order in which the rules are checked. -/
inductive Rule where | wrongKind | notFinal | fieldNotFinal | fieldNotPrivate | fieldInvalidType
  deriving DecidableEq

namespace Rule

/-- The rules in check order. -/
def all : List Rule := [wrongKind, notFinal, fieldNotFinal, fieldNotPrivate, fieldInvalidType]

/-- The code by which reports and configurations name a rule. -/
def code : Rule → String
  | wrongKind => "IMMUTABLE_WRONG_KIND"
  | notFinal => "IMMUTABLE_NOT_FINAL"
  | fieldNotFinal => "IMMUTABLE_FIELD_NOT_FINAL"
  | fieldNotPrivate => "IMMUTABLE_FIELD_NOT_PRIVATE"
  | fieldInvalidType => "IMMUTABLE_FIELD_INVALID_TYPE"

/-- The severity of a rule that no table reweighs. -/
def defaultSeverity (_ : Rule) : Severity := .error

/-- The severity of a rule under a table. -/
def severity (rule : Rule) (table : Severities) (default : Severity) : Severity :=
  (table.get? rule.code).getD default

end Rule

/-! ### Locations -/

/-- A place in the program: an element, and the file and line of its declaration as far as known. -/
structure Location where
  element : String
  kind : ElementKind
  file : Option String := none
  line : Option UInt64 := none
  deriving DecidableEq

/-- The place as a reader wants it; a line without a file says nothing. -/
def Location.text (l : Location) : String :=
  match l.file, l.line with
  | some file, some line => file ++ ":" ++ toString line.toNat ++ " (" ++ l.element ++ ")"
  | some file, none => file ++ " (" ++ l.element ++ ")"
  | none, _ => l.element

/-! ### Diagnostics -/

/-- A violation of a rule. -/
structure Diagnostic where
  rule : Rule
  severity : Severity
  message : String
  location : Option Location := none
  expected : Option String := none
  actual : Option String := none
  deriving DecidableEq

end Immutability
