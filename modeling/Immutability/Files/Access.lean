import Immutability.Files.Tree

/-! What a run asks of the files around it.

    The operations are given for any monad that offers them: for the files of the system, and for a
    tree of files held as a value. -/

namespace Immutability

/-- Access to files. -/
class Files (m : Type → Type) where
  /-- The text of a file. -/
  read : String → m (Except FileError String)
  /-- Makes a file hold a text. A write that fails has no effect. -/
  write : String → String → m (Except FileError Unit)
  /-- Something stands at a path. -/
  present : String → m Bool
  /-- A folder stands at a path. -/
  isFolder : String → m Bool
  /-- The files at and below a path in any order, as lists of steps from there on. -/
  filesBelow : String → m (List (List String))

/-- The files of a tree. -/
instance : Files (StateM FileTree) where
  read path := do return (← get).read path
  write path text := do
    match (← get).write path text with
    | .ok tree => set tree; return .ok ()
    | .error e => return .error e
  present path := do return (← get).exists? path
  isFolder path := do return (← get).isFolder path
  filesBelow path := do return (← get).filesBelow path

end Immutability
