import Immutability.Files.Access
import Immutability.Graph

/-! Finding the documents at given paths and loading them into one graph.

    A path is a document or a folder of documents. Documents of a folder come in the order of their
    paths, step by step, whatever the order in which the folder lists them. Each document has to be a
    graph by itself before it is merged with those before it. -/

namespace Immutability

/-! ### Documents of a folder -/

/-- The name is that of a document: something, and then the ending of JSON files. -/
def isDocumentName (name : String) : Bool :=
  decide (5 < name.length) && ".json".toList.isSuffixOf name.toList

/-- The last step of a path to a file. -/
def lastStep (path : String) : String := (FileTree.steps path).getLastD ""

/-- A path followed by further steps. The spelling of the path is kept. -/
def joinSteps (path : String) (steps : List String) : String :=
  steps.foldl (fun p step => (if p.endsWith "/" then p else p ++ "/") ++ step) path

/-- A path does not come after another one: the first step in which they differ decides, and a path
    comes before those that go on from it. -/
def stepsLe : List String → List String → Bool
  | [], _ => true
  | _ :: _, [] => false
  | a :: as, b :: bs => if a = b then stepsLe as bs else decide (a < b)

/-- The documents among files at and below a path, in the order of their steps. -/
def documentsAmong (root : String) (files : List (List String)) : List String :=
  ((files.filter fun steps => isDocumentName (steps.getLastD (lastStep root))).mergeSort
    stepsLe).map (joinSteps root)

variable {m : Type → Type} [Monad m] [Files m]

/-- The documents at and below a path. -/
def discover (root : String) : m (List String) := do
  return documentsAmong root (← Files.filesBelow root)

/-! ### Loading -/

/-- Why documents do not make up a graph. -/
inductive LoadError where
  | unreadable (path : String) (cause : FileError)
  | unparsable (fault : Fault)
  | invalid (error : GraphError)
  deriving DecidableEq

/-- The wording of an error. -/
def LoadError.message : LoadError → String
  | .unreadable path cause => "Failed to read type graph file " ++ path ++ ": " ++ cause.message
  | .unparsable fault => "Failed to parse type graph JSON: " ++ fault.message
  | .invalid error => error.message

/-- A document as it was found: its path, and its text or why it has none. -/
structure Finding where
  path : String
  content : Except FileError String

/-- The graph of the text of a document. -/
def TypeGraph.ofText (s : String) : Except LoadError TypeGraph :=
  match Document.ofText s with
  | .error fault => .error (.unparsable fault)
  | .ok d =>
    match ofDocument d with
    | .error e => .error (.invalid e)
    | .ok g => .ok g

/-- The graph of a document that was found. -/
def Finding.graph (f : Finding) : Except LoadError TypeGraph :=
  match f.content with
  | .error cause => .error (.unreadable f.path cause)
  | .ok text => TypeGraph.ofText text

/-- The graph with another one merged into it, if they have no type in common. -/
def TypeGraph.mergeNew (g other : TypeGraph) : Except LoadError TypeGraph :=
  match g.merge other with
  | (g, none) => .ok g
  | (_, some e) => .error (.invalid e)

/-- Merges documents into a graph in their order. -/
def TypeGraph.load (g : TypeGraph) : List Finding → Except LoadError TypeGraph
  | [] => .ok g
  | f :: fs =>
    match f.graph with
    | .error e => .error e
    | .ok other =>
      match g.mergeNew other with
      | .error e => .error e
      | .ok g => g.load fs

/-- The paths of the documents at a path. A path that is no folder is taken for a document, whatever
    its name. -/
def documentsAt (path : String) : m (List String) := do
  if ← Files.isFolder path then discover path else return [path]

/-- What is found at the paths of documents. -/
def findings : List String → m (List Finding)
  | [] => return []
  | path :: paths => do
    let content ← Files.read path
    return ⟨path, content⟩ :: (← findings paths)

/-- What is found at paths, in their order. -/
def findAll : List String → m (List Finding)
  | [] => return []
  | path :: paths => do
    let here ← findings (← documentsAt path)
    return here ++ (← findAll paths)

/-- The graph of the documents at paths. -/
def loadPaths (paths : List String) : m (Except LoadError TypeGraph) := do
  return TypeGraph.empty.load (← findAll paths)

end Immutability
