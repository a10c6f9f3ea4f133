import Immutability.Proofs.Discovery.Loading
import Immutability.Proofs.Files.Writing
import Immutability.Proofs.Report.Counts

/-! What a check does to a tree of files.

    Finding and loading documents leaves the tree as it is. Then the files of the report are written,
    first the text and then the Markdown if it is wanted, and only when both have been written the
    report is shown, and the status tells whether it has errors. -/

namespace Immutability

namespace FileTree

variable (tree : FileTree)

/-- The configuration in a file. -/
def configAt (path : String) : Except ConfigError Config :=
  match tree.read path with
  | .error cause => .error (.unreadable cause)
  | .ok text => Config.ofText text

/-- The configuration in the named file, or in the usual one if it is there. -/
def config : Option String → Except ConfigError Config
  | some path => tree.configAt path
  | none => if tree.exists? Config.fileName then tree.configAt Config.fileName else .ok .default

/-- Without the usual file there is the usual configuration. -/
theorem config_of_look_eq_none {tree : FileTree} (h : tree.look [Config.fileName] = none) :
    tree.config none = .ok .default := by
  have he : ¬ tree.exists? Config.fileName = true := by
    rw [exists?_name (by decide)]
    exact not_not_intro h
  rw [config, if_neg he]

/-- Making the files of a report leads from one tree to another. -/
inductive Saves (tree : FileTree) (r : Report) (output : String) : Option String → FileTree → Prop
  | text {tree' : FileTree} (h : tree.write output r.text = .ok tree') : Saves tree r output none tree'
  | markdown {path : String} {tree' tree'' : FileTree} (h : tree.write output r.text = .ok tree')
      (hm : tree'.write path r.markdown = .ok tree'') : Saves tree r output (some path) tree''

end FileTree

/-! ### Any files -/

section Files

variable {σ : Type} {state state' state'' : σ}

variable [Files (StateM σ)] {s : Surroundings} {r : Report} {output path : String} {e : FileError}

/-- A report that cannot be written is not shown. -/
theorem publish_unwritten
    (h : (Files.write output r.text : StateM σ _) state = (.error e, state')) (p : Progress)
    (said : String) (markdown : Option String) :
    (publish s p said r output markdown : StateM σ _) state =
      (.failure said e.message, state') := by
  rw [publish, bind_state h]
  rfl

/-- Nor is a report whose Markdown cannot be written. -/
theorem publish_half
    (h : (Files.write output r.text : StateM σ _) state = (.ok (), state'))
    (hm : (Files.write path r.markdown : StateM σ _) state' = (.error e, state'')) (p : Progress)
    (said : String) : ∃ told, (publish s p said r output (some path) : StateM σ _) state =
      (.failure told e.message, state'') := by
  have hs : (saveMarkdown p r (some path) : StateM σ _) state' = (.error e, state'') :=
    bind_state hm _
  rw [publish, bind_state h]
  exact ⟨_, bind_state hs _⟩

/-- A report that has been written is shown, and the status tells whether it has errors. -/
theorem publish_text
    (h : (Files.write output r.text : StateM σ _) state = (.ok (), state')) (p : Progress)
    (said : String) : ∃ told, (publish s p said r output none : StateM σ _) state =
      ({ status := if r.hasErrors then 1 else 0, stdout := r.screen s.color, stderr := told },
        state') := by
  rw [publish, bind_state h]
  exact ⟨_, rfl⟩

/-- So is a report that has been written in both forms. -/
theorem publish_markdown
    (h : (Files.write output r.text : StateM σ _) state = (.ok (), state'))
    (hm : (Files.write path r.markdown : StateM σ _) state' = (.ok (), state'')) (p : Progress)
    (said : String) : ∃ told, (publish s p said r output (some path) : StateM σ _) state =
      ({ status := if r.hasErrors then 1 else 0, stdout := r.screen s.color, stderr := told },
        state'') := by
  have hs : (saveMarkdown p r (some path) : StateM σ _) state' = (.ok _, state'') :=
    bind_state hm _
  rw [publish, bind_state h]
  exact ⟨_, bind_state hs _⟩

variable {config : Option String} {c : Config} {paths : List String}

/-- A check without a configuration fails. -/
theorem run_unconfigured {e : ConfigError}
    (h : (Config.find config : StateM σ _) state = (.error e, state')) (verbose : Bool)
    (command : Command) : (run s ⟨config, verbose, command⟩ : StateM σ _) state =
      (.failure "" e.message, state') :=
  bind_state h _

/-- So does a check of documents that do not make up a graph. -/
theorem run_check_unloaded {e : LoadError}
    (hc : (Config.find config : StateM σ _) state = (.ok c, state'))
    (hl : (loadPaths paths : StateM σ _) state' = (.error e, state'')) (verbose : Bool)
    (output : String) (markdown : Option String) : ∃ told text,
      (run s ⟨config, verbose, .check paths output markdown⟩ : StateM σ _) state =
        (.failure told text, state'') := by
  rw [run, bind_state hc]
  exact ⟨_, _, bind_state hl _⟩

/-- A check of documents that make up a graph publishes the report of a run over the graph. -/
theorem run_check_loaded {g : TypeGraph}
    (hc : (Config.find config : StateM σ _) state = (.ok c, state'))
    (hl : (loadPaths paths : StateM σ _) state' = (.ok g, state'')) (verbose : Bool)
    (output : String) (markdown : Option String) : ∃ p said,
      (run s ⟨config, verbose, .check paths output markdown⟩ : StateM σ _) state =
        (publish s p said (runReport s.now g ((Verifier.ofConfig c).verify g)) output markdown :
          StateM σ _) state'' := by
  rw [run, bind_state hc]
  exact ⟨_, _, bind_state hl _⟩

end Files

variable {tree tree' : FileTree}

/-! ### Loading -/

theorem ofFile_tree (tree : FileTree) (path : String) :
    (Config.ofFile path : StateM FileTree _) tree = (tree.configAt path, tree) := by
  have hr : (Files.read path : StateM FileTree _) tree = (tree.read path, tree) := rfl
  rw [Config.ofFile, bind_state hr, FileTree.configAt]
  cases tree.read path <;> rfl

/-- Finding the configuration does not change the tree. -/
theorem find_tree (tree : FileTree) (config : Option String) :
    (Config.find config : StateM FileTree _) tree = (tree.config config, tree) := by
  cases config with
  | some path => exact ofFile_tree tree path
  | none =>
    have hp : (Files.present Config.fileName : StateM FileTree _) tree =
      (tree.exists? Config.fileName, tree) := rfl
    rw [Config.find, bind_state hp, FileTree.config]
    split
    · exact ofFile_tree tree Config.fileName
    · rfl

/-! ### Reporting -/

theorem write_tree_eq (tree : FileTree) (path text : String) :
    (Files.write path text : StateM FileTree _) tree =
      match tree.write path text with
      | .ok tree' => (.ok (), tree')
      | .error e => (.error e, tree) := by
  have hget : (get : StateM FileTree FileTree) tree = (tree, tree) := rfl
  refine (bind_state hget _).trans ?_
  cases tree.write path text <;> rfl

theorem write_tree {path text : String} (h : tree.write path text = .ok tree') :
    (Files.write path text : StateM FileTree _) tree = (.ok (), tree') := by
  rw [write_tree_eq, h]

/-- A report whose files can be written is shown, and the status tells whether it has errors. -/
theorem publish_tree {r : Report} {output : String} {markdown : Option String}
    (h : tree.Saves r output markdown tree') (s : Surroundings) (p : Progress) (said : String) :
    ∃ told, (publish s p said r output markdown : StateM FileTree _) tree =
      ({ status := if r.hasErrors then 1 else 0, stdout := r.screen s.color, stderr := told },
        tree') := by
  cases h with
  | text h => exact publish_text (write_tree h) p said
  | markdown h hm => exact publish_markdown (write_tree h) (write_tree hm) p said

/-- A check whose documents make up a graph, and whose files can be written, shows the report of a
    run over the graph. -/
theorem runCheck_tree {paths : List String} {g : TypeGraph} {s : Surroundings} {c : Config}
    {output : String} {markdown : Option String}
    (hg : TypeGraph.empty.load (tree.findings paths) = .ok g)
    (h : tree.Saves (runReport s.now g ((Verifier.ofConfig c).verify g)) output markdown tree')
    (verbose : Bool) : let r := runReport s.now g ((Verifier.ofConfig c).verify g)
    ∃ told, (runCheck s c verbose paths output markdown : StateM FileTree _) tree =
      ({ status := if r.hasErrors then 1 else 0, stdout := r.screen s.color, stderr := told },
        tree') := by
  have hl : (loadPaths paths : StateM FileTree _) tree = (.ok g, tree) := by
    rw [loadPaths_tree, hg]
  rw [runCheck, bind_state hl]
  exact publish_tree h s _ _

end Immutability
