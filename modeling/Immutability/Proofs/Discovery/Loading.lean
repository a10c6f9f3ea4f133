import Immutability.Proofs.Discovery.Order
import Immutability.Proofs.Files.Names

/-! Loading the documents of a tree.

    What is found at paths depends on the tree only. Files that hold the tree may list what is below a
    folder in any order, and in another one every time. -/

namespace Immutability

namespace FileTree

variable (tree : FileTree)

/-- The paths of the documents at a path. -/
def documentsAt (path : String) : List String :=
  if tree.isFolder path then documentsAmong path (tree.filesBelow path) else [path]

/-- What is found at paths, in their order. -/
def findings (paths : List String) : List Finding :=
  (paths.flatMap tree.documentsAt).map fun path => ⟨path, tree.read path⟩

/-- What is found at the path of a file. -/
theorem findings_file {tree : FileTree} {path text : String} (h : tree.read path = .ok text) :
    tree.findings [path] = [⟨path, .ok text⟩] := by
  rw [findings, List.flatMap_singleton, documentsAt, isFolder_of_read h, if_neg Bool.false_ne_true,
    List.map_singleton, h]

end FileTree

section Files

variable {σ : Type} {state state' : σ}

/-- A run goes on with what its first part gives and with the state that this part leaves. -/
theorem bind_state {α β : Type} {x : StateM σ α} {a : α} (h : x state = (a, state'))
    (f : α → StateM σ β) : (x >>= f) state = f a state' := by
  have hb : (x >>= f) state = f (x state).1 (x state).2 := rfl
  rw [hb, h]

variable [Files (StateM σ)] {tree : FileTree} {holds : σ → Prop}

/-- In some states the files are those of a tree, and looking at them leads to such states. -/
structure Shows (tree : FileTree) (holds : σ → Prop) : Prop where
  read {state : σ} (hs : holds state) (path : String) : ∃ state', holds state' ∧
    (Files.read path : StateM σ _) state = (tree.read path, state')
  isFolder {state : σ} (hs : holds state) (path : String) : ∃ state', holds state' ∧
    (Files.isFolder path : StateM σ _) state = (tree.isFolder path, state')
  filesBelow {state : σ} (hs : holds state) (path : String) : ∃ state' files, holds state' ∧
    files.Perm (tree.filesBelow path) ∧ (Files.filesBelow path : StateM σ _) state = (files, state')

/-- The order in which files are listed makes no difference to the documents at and below a path. -/
theorem Shows.discover (h : Shows tree holds) (hs : holds state) (path : String) :
    ∃ state', holds state' ∧ (discover path : StateM σ _) state =
      (documentsAmong path (tree.filesBelow path), state') := by
  obtain ⟨state', files, hs', hp, hf⟩ := h.filesBelow hs path
  refine ⟨state', hs', ?_⟩
  rw [Immutability.discover, bind_state hf, ← documentsAmong_eq_of_perm hp]
  rfl

theorem Shows.documentsAt (h : Shows tree holds) (hs : holds state) (path : String) :
    ∃ state', holds state' ∧
      (documentsAt path : StateM σ _) state = (tree.documentsAt path, state') := by
  obtain ⟨state', hs', hf⟩ := h.isFolder hs path
  rw [Immutability.documentsAt, bind_state hf, FileTree.documentsAt]
  split
  · exact h.discover hs' path
  · exact ⟨state', hs', rfl⟩

theorem Shows.findings (h : Shows tree holds) (hs : holds state) (paths : List String) :
    ∃ state', holds state' ∧ (findings paths : StateM σ _) state =
      (paths.map fun path => ⟨path, tree.read path⟩, state') := by
  induction paths generalizing state with
  | nil => exact ⟨state, hs, rfl⟩
  | cons path paths ih =>
    obtain ⟨state', hs', hr⟩ := h.read hs path
    obtain ⟨state'', hs'', hf⟩ := ih hs'
    refine ⟨state'', hs'', ?_⟩
    rw [Immutability.findings, bind_state hr, bind_state hf]
    rfl

theorem Shows.findAll (h : Shows tree holds) (hs : holds state) (paths : List String) :
    ∃ state', holds state' ∧ (findAll paths : StateM σ _) state = (tree.findings paths, state') := by
  induction paths generalizing state with
  | nil => exact ⟨state, hs, rfl⟩
  | cons path paths ih =>
    obtain ⟨state₁, hs₁, hd⟩ := h.documentsAt hs path
    obtain ⟨state₂, hs₂, hf⟩ := h.findings hs₁ (tree.documentsAt path)
    obtain ⟨state₃, hs₃, ha⟩ := ih hs₂
    refine ⟨state₃, hs₃, ?_⟩
    rw [Immutability.findAll, bind_state hd, bind_state hf, bind_state ha, FileTree.findings,
      FileTree.findings, List.flatMap_cons, List.map_append]
    rfl

/-- The graph of the documents at paths is that of what is found there. -/
theorem Shows.loadPaths (h : Shows tree holds) (hs : holds state) (paths : List String) :
    ∃ state', holds state' ∧ (loadPaths paths : StateM σ _) state =
      (TypeGraph.empty.load (tree.findings paths), state') := by
  obtain ⟨state', hs', hf⟩ := h.findAll hs paths
  exact ⟨state', hs', bind_state hf _⟩

end Files

/-! ### The tree itself -/

theorem FileTree.shows (tree : FileTree) : Shows tree (· = tree) where
  read hs path := ⟨tree, rfl, by rw [hs]; rfl⟩
  isFolder hs path := ⟨tree, rfl, by rw [hs]; rfl⟩
  filesBelow hs path := ⟨tree, tree.filesBelow path, rfl, .refl _, by rw [hs]; rfl⟩

/-- Finding documents does not change the tree. -/
theorem findAll_tree (tree : FileTree) (paths : List String) :
    (findAll paths : StateM FileTree _) tree = (tree.findings paths, tree) := by
  obtain ⟨_, rfl, h⟩ := tree.shows.findAll rfl paths
  exact h

theorem loadPaths_tree (tree : FileTree) (paths : List String) :
    (loadPaths paths : StateM FileTree _) tree =
      (TypeGraph.empty.load (tree.findings paths), tree) :=
  bind_state (findAll_tree tree paths) _

end Immutability
