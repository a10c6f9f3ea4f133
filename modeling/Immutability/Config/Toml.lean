import Immutability.Config
import Immutability.Reading.Record
import Immutability.Toml.Document

/-! Configurations as TOML.

    Every section and every member may be left out. Unlike the text of a document, the text of a
    configuration is read as a whole before anything is made of it, so a wrong shape is only noticed in
    a text that is TOML; of several wrong shapes the first in the order of the tables is reported. -/

namespace Immutability

namespace Toml.Read

/-- Refuses a value. A date or time is a table of its own kind. -/
def mismatch {α : Type} (wanted : String) (v : Value) : Except Fault α :=
  let found := match v with
    | .text s => Found.text s
    | .integer i => .integer i
    | .real x => .decimal x.text
    | .boolean b => .boolean b
    | .moment _ | .table _ => .map
    | .sequence _ _ => .sequence
  .error (.shape (.wrongType found wanted))

/-- A text. -/
def text : Value → Except Fault String
  | .text s => .ok s
  | v => mismatch "a string" v

/-- A truth value. -/
def boolean : Value → Except Fault Bool
  | .boolean b => .ok b
  | v => mismatch "a boolean" v

/-- A list. -/
def list {α : Type} (read : Value → Except Fault α) : Value → Except Fault (List α)
  | .sequence vs _ => readAll read vs
  | v => mismatch "a sequence" v

/-- A record called `name`, written as a table or as a list. A date or time is a table in which no
    member is found, and a list may be longer than the record. -/
def record {αs : List Type} (name : String) (members : Members Value αs) :
    Value → Except Fault (Values αs)
  | .table entries =>
    match members.putAll (fun _ => .ok ()) (Slots.empty αs) entries with
    | .error fault => .error fault
    | .ok slots => members.close slots
  | .moment _ => members.close (Slots.empty αs)
  | .sequence vs _ =>
    let wanted := "struct " ++ name ++ " with " ++ toString members.count ++ " elements"
    (members.take wanted true 0 vs).map (·.1)
  | v => mismatch ("struct " ++ name) v

/-- What a scalar is called where a table is wanted. -/
def scalarName : Value → String
  | .text _ => "string"
  | .integer _ => "integer"
  | .real _ => "float"
  | .boolean _ => "boolean"
  | .moment _ => "datetime"
  | .sequence _ _ => "array"
  | .table _ => "table"

/-- The content of a variant that has none. -/
def noContent : Value → Except Fault Unit
  | .table [] | .sequence [] _ => .ok ()
  | .table _ | .sequence _ false => .error (.shape (.variantContent "table" none))
  | .sequence _ true => .error (.shape (.variantContent "array" none))
  | v => .error (.shape (.variantContent "table" (some (scalarName v))))

/-- A variant without content, written as its name or as a table of its name and nothing. -/
def plain {α : Type} (known : List (String × α)) : Value → Except Fault α
  | .text name => variantOf known name
  | .table [] => .error (.shape (.notOneMember "found 0 elements"))
  | .table [(name, v)] => (variantOf known name).bind fun a => (noContent v).map fun _ => a
  | .table _ => .error (.shape (.notOneMember "more than 1 element"))
  | _ => .error (.shape .notVariant)

/-- The entries of a table in order. -/
def entries {α : Type} (read : Value → Except Fault α) :
    List (String × Value) → Except Fault (List (String × α)) :=
  readAll fun (key, v) => (read v).map fun a => (key, a)

/-- A table from texts to variants. A date or time is a table whose one value is its spelling. -/
def keyed {α : Type} (known : List (String × α)) : Value → Except Fault (Keyed α)
  | .table es => (entries (plain known) es).map Keyed.ofList
  | .moment spelling => (variantOf known spelling).map fun a => .ofList [("", a)]
  | v => mismatch "a map" v

end Toml.Read

open Toml

namespace Config

/-- The severities by their names. -/
def severityNames : List (String × Severity) := Severity.all.map fun s => (s.name, s)

/-- The members of the section of severities. -/
def severityMembers : Members Value [Severities] :=
  .also (.defaulted "overrides" (Read.keyed severityNames) .empty) .none

/-- The members of the section of exemptions. -/
def allowlistMembers : Members Value [List String] :=
  .also (.defaulted "skip_types" (Read.list Read.text) []) .none

/-- The members of a configuration. -/
def members : Members Value [Bool, List String, Severities, List String] :=
  .also (.defaulted "use_default_registry" Read.boolean true) <|
  .also (.defaulted "known_immutable" (Read.list Read.text) []) <|
  .also (.defaulted "severity"
    (fun v => (Read.record "SeverityThreshold" severityMembers v).map (·.1)) .empty) <|
  .also (.defaulted "allowlist"
    (fun v => (Read.record "AllowlistRules" allowlistMembers v).map (·.1)) []) .none

/-- The configuration of the values of its members. -/
def ofValues : Values [Bool, List String, Severities, List String] → Config
  | (useDefaultRegistry, knownImmutable, severities, skipTypes, ()) =>
    { useDefaultRegistry, knownImmutable, severities, skipTypes }

/-- Reads the text of a configuration. -/
def ofToml (s : String) : Except Fault Config :=
  match Toml.read s with
  | none => .error .malformed
  | some entries => (Read.record "Config" members (.table entries)).map ofValues

/-! ### Writing -/

/-- A list of texts, each on a line of its own if there are several. -/
def writeList : List String → List Char
  | [] => ['[', ']']
  | [s] => '[' :: (writeText s.toList ++ [']'])
  | ss =>
    ['[', '\n'] ++ ss.flatMap (fun s => "    ".toList ++ writeText s.toList ++ [',', '\n']) ++ [']']

/-- The line of a reweighed rule. -/
def overrideLine : String × Severity → String
  | (key, s) => String.ofList (writeKey key.toList ++ " = ".toList ++ writeText s.name.toList)

/-- The lines of the reweighed rules, in the order of the lines. -/
def overrideLines (table : Severities) : List String :=
  (table.entries.map overrideLine).mergeSort fun a b => decide (a ≤ b)

/-- The text of a configuration. -/
def toToml (c : Config) : String :=
  "use_default_registry = " ++ (if c.useDefaultRegistry then "true" else "false") ++ "\n"
    ++ "known_immutable = " ++ String.ofList (writeList c.knownImmutable) ++ "\n\n"
    ++ "[severity.overrides]\n"
    ++ String.join ((overrideLines c.severities).map (· ++ "\n")) ++ "\n"
    ++ "[allowlist]\nskip_types = " ++ String.ofList (writeList c.skipTypes) ++ "\n"

end Config

end Immutability
