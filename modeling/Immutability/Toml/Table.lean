import Immutability.Toml.Value

/-! How the statements of a TOML text make up its tables.

    A table may be opened by one header, be passed through on the way to the table of another header,
    or be made by dotted keys, and each of these limits what may be added to it later. A table that is
    passed through first and opened later takes its place behind the entries written in between. -/

namespace Immutability.Toml

/-- How a table came to be. -/
inductive Origin where | opened | passed | dotted
  deriving DecidableEq

/-- An entry of a table that is being made. -/
inductive Node where
  | value (v : Value)
  | table (origin : Origin) (entries : List (String × Node))
  /-- A run of tables under headers, of which the last is still open. -/
  | tables (done : List (List (String × Node))) (last : List (String × Node))

/-- The entries of a table that is being made. -/
abbrev Entries := List (String × Node)

/-- Gives a key that has an entry another one, in the same place. -/
def Entries.replace (key : String) (node : Node) (entries : Entries) : Entries :=
  entries.map fun (k, n) => if k = key then (k, node) else (k, n)

/-- Removes the entry of a key. -/
def Entries.erase (key : String) (entries : Entries) : Entries := entries.filter (·.1 ≠ key)

/-- Gives a dotted key its value. The last table on the way takes it only if dotted keys made it, or
    if it is the one in which the statement stands (`here`). -/
def assign (key : String) (v : Value) : (path : List String) → (here : Bool) → Entries →
    Option Entries
  | [], here, entries =>
    match here, entries.lookup key with
    | true, none => some (entries ++ [(key, .value v)])
    | _, _ => none
  | k :: ks, _, entries =>
    match entries.lookup k with
    | none => (assign key v ks true []).map fun es => entries ++ [(k, .table .dotted es)]
    | some (.table .opened _) | some (.value _) => none
    | some (.table origin es) =>
      (assign key v ks (origin = .dotted) es).map fun es => entries.replace k (.table origin es)
    | some (.tables done last) =>
      (assign key v ks false last).map fun es => entries.replace k (.tables done es)

/-- Changes the table of a path, and makes the tables on the way that are not there. Of a run of
    tables the last one is meant. -/
def within (change : Entries → Option Entries) : (path : List String) → Entries → Option Entries
  | [], entries => change entries
  | k :: ks, entries =>
    match entries.lookup k with
    | none => (within change ks []).map fun es => entries ++ [(k, .table .passed es)]
    | some (.value _) => none
    | some (.table origin es) =>
      (within change ks es).map fun es => entries.replace k (.table origin es)
    | some (.tables done last) =>
      (within change ks last).map fun es => entries.replace k (.tables done es)

/-- Opens a table by its header. It must be new, or only have been passed through. -/
def openTable (key : String) (entries : Entries) : Option Entries :=
  match entries.lookup key with
  | none => some (entries ++ [(key, .table .opened [])])
  | some (.table .passed es) => some (entries.erase key ++ [(key, .table .opened es)])
  | _ => none

/-- Opens the next table of a run by its header. -/
def openNext (key : String) (entries : Entries) : Option Entries :=
  match entries.lookup key with
  | none => some (entries ++ [(key, .tables [] [])])
  | some (.tables done last) => some (entries.replace key (.tables (done ++ [last]) []))
  | _ => none

mutual

/-- The value of a finished entry. -/
def Node.finish : Node → Value
  | .value v => v
  | .table _ entries => .table (finishEntries entries)
  | .tables done last => .sequence (finishTables done ++ [.table (finishEntries last)]) true

/-- The values of finished entries. -/
def finishEntries : List (String × Node) → List (String × Value)
  | [] => []
  | (key, node) :: entries => (key, node.finish) :: finishEntries entries

/-- The values of finished tables. -/
def finishTables : List (List (String × Node)) → List Value
  | [] => []
  | entries :: tables => .table (finishEntries entries) :: finishTables tables

end

/-- A statement of a TOML text. Paths are given by their last key and the keys before it. -/
inductive Statement where
  | assignment (path : List String) (key : String) (value : Value)
  | header (path : List String) (key : String)
  | nextHeader (path : List String) (key : String)

/-- A text that has been read so far: its tables, and the path of the one that is open. -/
structure Draft where
  root : Entries := []
  current : List String := []

/-- Takes one more statement. -/
def Draft.take (d : Draft) : Statement → Option Draft
  | .assignment path key v =>
    (within (assign key v path true) d.current d.root).map fun root => { d with root }
  | .header path key => (within (openTable key) path d.root).map fun root => ⟨root, path ++ [key]⟩
  | .nextHeader path key => (within (openNext key) path d.root).map fun root => ⟨root, path ++ [key]⟩

/-- Takes statements in their order. -/
def Draft.takeAll : List Statement → Draft → Option Draft
  | [], d => some d
  | s :: ss, d => (d.take s).bind (takeAll ss)

/-- The table of dotted keys and their values between braces. -/
def inlineTable : List (List String × String × Value) → Entries → Option Entries
  | [], entries => some entries
  | (path, key, v) :: pairs, entries => (assign key v path true entries).bind (inlineTable pairs)

end Immutability.Toml
