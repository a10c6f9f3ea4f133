/-! A tree of files, and how paths lead through it.

    A path is a text of steps between slashes. Empty steps and single dots stay where they are, but only
    a folder can be stayed in; two dots lead back to the folder above. -/

namespace Immutability

/-- Why a file cannot be read or written. -/
inductive FileError where
  | notFound
  | notFolder
  | isFolder
  | notText
  /-- Anything else, in the words of the system. -/
  | other (text : String)
  deriving DecidableEq

/-- The wording of an error. -/
def FileError.message : FileError → String
  | notFound => "No such file or directory (os error 2)"
  | notFolder => "Not a directory (os error 20)"
  | isFolder => "Is a directory (os error 21)"
  | notText => "stream did not contain valid UTF-8"
  | other text => text

/-- A file with its text, if its bytes are one, or a folder with its entries. -/
inductive FileTree where
  | file (text : Option String)
  | folder (entries : List (String × FileTree))

namespace FileTree

/-- The folder without entries. -/
def empty : FileTree := .folder []

/-- Gives a name an entry, in place of an earlier one or at the end. -/
def setEntry (name : String) (node : FileTree) : List (String × FileTree) → List (String × FileTree)
  | [] => [(name, node)]
  | (n, t) :: entries =>
    if n = name then (name, node) :: entries else (n, t) :: setEntry name node entries

/-! ### Following paths -/

/-- The steps of a path. -/
def steps (path : String) : List String := path.splitOn "/"

/-- A place in a tree: what stands there, and the folders above it from the innermost outwards, each
    with the name by which it was left. -/
structure Place where
  node : FileTree
  above : List (String × List (String × FileTree))

/-- The place to which steps lead. -/
def follow : List String → Place → Except FileError Place
  | [], place => .ok place
  | _ :: _, ⟨.file _, _⟩ => .error .notFolder
  | step :: rest, ⟨.folder entries, above⟩ =>
    if step = "" ∨ step = "." then follow rest ⟨.folder entries, above⟩
    else if step = ".." then
      match above with
      | [] => follow rest ⟨.folder entries, []⟩
      | (_, outer) :: above => follow rest ⟨.folder outer, above⟩
    else
      match entries.lookup step with
      | none => .error .notFound
      | some node => follow rest ⟨node, (step, entries) :: above⟩

/-- The place of a path. Paths from the root of the system lead out of the tree. -/
def place (tree : FileTree) (path : String) : Except FileError Place :=
  if path = "" || path.startsWith "/" then .error .notFound else follow (steps path) ⟨tree, []⟩

/-- Something stands at a path. -/
def exists? (tree : FileTree) (path : String) : Bool :=
  match tree.place path with
  | .ok _ => true
  | .error _ => false

/-- A folder stands at a path. -/
def isFolder (tree : FileTree) (path : String) : Bool :=
  match tree.place path with
  | .ok ⟨.folder _, _⟩ => true
  | _ => false

/-- The text of the file at a path. -/
def read (tree : FileTree) (path : String) : Except FileError String :=
  match tree.place path with
  | .error e => .error e
  | .ok ⟨.folder _, _⟩ => .error .isFolder
  | .ok ⟨.file none, _⟩ => .error .notText
  | .ok ⟨.file (some text), _⟩ => .ok text

/-! ### Writing -/

/-- The tree around a place. -/
def Place.root (p : Place) : FileTree :=
  p.above.foldl (fun node (name, entries) => .folder (setEntry name node entries)) p.node

/-- The tree in which the file at a path holds a text. The folder of the file must be there. -/
def write (tree : FileTree) (path text : String) : Except FileError FileTree :=
  let all := steps path
  let named := all.reverse.dropWhile (· = "")
  match named, tree.place path with
  | [], _ => .error .notFound
  | last :: before, whole =>
    if path.startsWith "/" then .error .notFound
    else if last = "." ∨ last = ".." then
      match whole with
      | .error e => .error e
      | .ok _ => .error .isFolder
    else
      match follow before.reverse ⟨tree, []⟩ with
      | .error e => .error e
      | .ok ⟨.file _, _⟩ => .error .notFolder
      | .ok ⟨.folder entries, above⟩ =>
        if named.length < all.length then .error .isFolder
        else
          match entries.lookup last with
          | some (.folder _) => .error .isFolder
          | _ => .ok (Place.root ⟨.folder (setEntry last (.file (some text)) entries), above⟩)

/-! ### Listing -/

mutual

/-- The paths of the files in a tree, as lists of steps. -/
def files : FileTree → List (List String)
  | .file _ => [[]]
  | .folder entries => filesIn entries

/-- The paths of the files in the entries of a folder. -/
def filesIn : List (String × FileTree) → List (List String)
  | [] => []
  | (name, node) :: entries => (files node).map (name :: ·) ++ filesIn entries

end

/-- The paths of the files at and below a path, from there on. -/
def filesBelow (tree : FileTree) (path : String) : List (List String) :=
  match tree.place path with
  | .ok p => p.node.files
  | .error _ => []

end FileTree

end Immutability
