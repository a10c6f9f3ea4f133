import Immutability.Proofs.Command.Check
import Immutability.Proofs.Files.Writing
import Immutability.Proofs.Graph.Loading
import Immutability.Proofs.Report.Screen

/-! What a check leaves behind.

    For this it does not matter how files are kept, only that a write keeps what it promises: it
    fails and changes nothing, or the file of the path holds the text and no other file has changed
    (`Storage`). A tree of files keeps it. Everything a check does before it writes only asks, so a
    check that fails on the way leaves all files as they were. -/

namespace Immutability

/-- Something that asks without changing anything. -/
def Asks {σ α : Type} (x : StateM σ α) : Prop := ∀ state, (x state).2 = state

/-- A keeping of files: which files paths stand for, and what files hold, if they are there. A file
    without a text holds `none`. -/
class Storage (σ : Type) [Files (StateM σ)] where
  File : Type
  denotes : σ → String → File → Prop
  content : σ → File → Option (Option String)
  denotes_unique {state : σ} {path : String} {file other : File} (h : denotes state path file)
    (h' : denotes state path other) : file = other
  read_asks (path : String) : Asks (Files.read path : StateM σ _)
  present_asks (path : String) : Asks (Files.present path : StateM σ _)
  isFolder_asks (path : String) : Asks (Files.isFolder path : StateM σ _)
  filesBelow_asks (path : String) : Asks (Files.filesBelow path : StateM σ _)
  /-- A write that fails has no effect. -/
  write_error {path text : String} {state state' : σ} {e : FileError}
    (h : (Files.write path text : StateM σ _) state = (.error e, state')) : state' = state
  /-- A write that succeeds replaces the whole content of the file of the path, and nothing else. -/
  write_ok {path text : String} {state state' : σ}
    (h : (Files.write path text : StateM σ _) state = (.ok (), state')) :
    (∃ file, denotes state path file ∧ content state' file = some (some text) ∧
      ∀ other, other ≠ file → content state' other = content state other) ∧
    ∀ path file, denotes state' path file ↔ denotes state path file

namespace Asks

variable {σ α β : Type}

theorem pure (a : α) : Asks (Pure.pure a : StateM σ α) := fun _ => rfl

theorem bind {x : StateM σ α} {f : α → StateM σ β} (hx : Asks x) (hf : ∀ a, Asks (f a)) :
    Asks (x >>= f) := by
  intro state
  have hb : (x >>= f) state = f (x state).1 (x state).2 := rfl
  rw [hb, hf, hx]

/-- What asks gives its answer and the state as it is. -/
theorem run_eq {x : StateM σ α} (hx : Asks x) (state : σ) : x state = ((x state).1, state) :=
  Prod.ext rfl (hx state)

end Asks

/-! ### Asking -/

section Storage

variable {σ : Type} [Files (StateM σ)] [Storage σ]

theorem documentsAt_asks (path : String) : Asks (documentsAt path : StateM σ _) := by
  refine .bind (Storage.isFolder_asks path) fun folder => ?_
  cases folder with
  | true => exact .bind (Storage.filesBelow_asks path) fun files => .pure _
  | false => exact .pure _

theorem findings_asks (paths : List String) : Asks (findings paths : StateM σ _) := by
  induction paths with
  | nil => exact .pure _
  | cons path paths ih =>
    exact .bind (Storage.read_asks path) fun content => .bind ih fun fs => .pure _

theorem findAll_asks (paths : List String) : Asks (findAll paths : StateM σ _) := by
  induction paths with
  | nil => exact .pure _
  | cons path paths ih =>
    refine .bind (documentsAt_asks path) fun documents => ?_
    exact .bind (findings_asks documents) fun here => .bind ih fun fs => .pure _

theorem ofFile_asks (path : String) : Asks (Config.ofFile path : StateM σ _) := by
  refine .bind (Storage.read_asks path) fun content => ?_
  cases content <;> exact .pure _

theorem find_asks (config : Option String) : Asks (Config.find config : StateM σ _) := by
  cases config with
  | some path => exact ofFile_asks path
  | none =>
    refine .bind (Storage.present_asks Config.fileName) fun present => ?_
    cases present with
    | true => exact ofFile_asks Config.fileName
    | false => exact .pure _

/-- Documents are loaded without changing anything. -/
theorem loadPaths_eq (paths : List String) (state : σ) :
    (loadPaths paths : StateM σ _) state =
      (TypeGraph.empty.load ((findAll paths : StateM σ _) state).1, state) :=
  bind_state ((findAll_asks paths).run_eq state) _

/-! ### Writing -/

/-- What is left when texts have been written for paths: the files of the paths hold the texts, and
    all other files are as before. -/
structure Leaves (before after : σ) (texts : List (String × String)) : Prop where
  written : ∀ p ∈ texts, ∃ file, Storage.denotes before p.1 file ∧
    Storage.content after file = some (some p.2)
  kept : ∀ file, (∀ p ∈ texts, ¬ Storage.denotes before p.1 file) →
    Storage.content after file = Storage.content before file

variable {before half after : σ} {path text path' text' : String}

theorem leaves_of_write (h : (Files.write path text : StateM σ _) before = (.ok (), after)) :
    Leaves before after [(path, text)] := by
  obtain ⟨⟨file, hd, hc, hk⟩, -⟩ := Storage.write_ok h
  refine ⟨List.forall_mem_singleton.2 ⟨file, hd, hc⟩, ?_⟩
  intro other ho
  refine hk other ?_
  rintro rfl
  exact ho _ List.mem_cons_self hd

/-- A second write leaves the file of the first one if it is for another file. -/
theorem leaves_of_writes (h : (Files.write path text : StateM σ _) before = (.ok (), half))
    (h' : (Files.write path' text' : StateM σ _) half = (.ok (), after))
    (hd : ∀ file, Storage.denotes before path file → ¬ Storage.denotes before path' file) :
    Leaves before after [(path, text), (path', text')] := by
  obtain ⟨⟨file, hf, hc, hk⟩, hs⟩ := Storage.write_ok h
  obtain ⟨⟨file', hf', hc', hk'⟩, -⟩ := Storage.write_ok h'
  rw [hs] at hf'
  have hne : file ≠ file' := by
    rintro rfl
    exact hd _ hf hf'
  refine ⟨List.forall_mem_cons.2 ⟨⟨file, hf, ?_⟩, List.forall_mem_singleton.2 ⟨file', hf', hc'⟩⟩, ?_⟩
  · rw [hk' file hne, hc]
  · intro other ho
    obtain ⟨ho, ho'⟩ := List.forall_mem_cons.1 ho
    rw [hk', hk]
    · rintro rfl
      exact ho hf
    · rintro rfl
      exact List.forall_mem_singleton.1 ho' hf'

end Storage

/-- A run that failed: nothing has been shown. -/
structure Outcome.Failed (outcome : Outcome) : Prop where
  status : outcome.status = 1
  silent : outcome.stdout = ""

/-- What a failed run shows is not the text of any report. -/
theorem Outcome.Failed.stdout_ne_screen {outcome : Outcome} (h : outcome.Failed) (color : Bool)
    (r : Report) : outcome.stdout ≠ r.screen color := by
  rw [h.silent]
  exact (r.screen_ne_empty color).symm

/-- A run that ended in a failure has failed. -/
theorem failed_of_eq {σ : Type} {ended : Outcome × σ} {said text : String} {state : σ}
    (h : ended = (.failure said text, state)) : ended.1.Failed ∧ ended.2 = state := by
  rw [h]
  exact ⟨⟨rfl, rfl⟩, rfl⟩

/-- A report that cannot be written leaves everything as it was and is not shown. One that has been
    written, but not its Markdown, is left complete and not shown either. Otherwise it is shown, and
    the status tells whether it has errors. -/
theorem publish_effects {σ : Type} [Files (StateM σ)] [Storage σ] (w : Surroundings) (p : Progress)
    (said : String) (r : Report) {output : String} {markdown : Option String} {before : σ}
    (hd : ∀ path ∈ markdown, ∀ file, Storage.denotes before output file →
      ¬ Storage.denotes before path file) :
    let ended := (publish w p said r output markdown : StateM σ _) before
    (∀ e, ((Files.write output r.text : StateM σ _) before).1 = .error e →
      ended.1.Failed ∧ ended.2 = before) ∧
    ∀ half, (Files.write output r.text : StateM σ _) before = (.ok (), half) →
      (∀ path ∈ markdown, ∀ e, ((Files.write path r.markdown : StateM σ _) half).1 = .error e →
        ended.1.Failed ∧ Leaves before ended.2 [(output, r.text)]) ∧
      ((∀ path ∈ markdown, ((Files.write path r.markdown : StateM σ _) half).1 = .ok ()) →
        ended.1.status = (if r.hasErrors then 1 else 0) ∧ ended.1.stdout = r.screen w.color ∧
        Leaves before ended.2
          ((output, r.text) :: markdown.toList.map fun path => (path, r.markdown))) := by
  intro ended
  constructor
  · intro e he
    have hw : (Files.write output r.text : StateM σ _) before = (.error e, _) := Prod.ext he rfl
    obtain ⟨hf, hs⟩ := failed_of_eq (publish_unwritten (s := w) hw p said markdown)
    exact ⟨hf, hs.trans (Storage.write_error hw)⟩
  · intro half hw
    cases markdown with
    | none =>
      obtain ⟨told, ht⟩ := publish_text (s := w) hw p said
      refine ⟨fun path hm => absurd hm (Option.not_mem_none path), fun _ => ?_⟩
      rw [show ended = _ from ht]
      exact ⟨rfl, rfl, leaves_of_write hw⟩
    | some path =>
      refine ⟨?_, ?_⟩
      · intro path' hm e he
        cases hm
        have hw' : (Files.write path r.markdown : StateM σ _) half = (.error e, half) := by
          have hw' : (Files.write path r.markdown : StateM σ _) half = (.error e, _) := Prod.ext he rfl
          rw [hw', Storage.write_error hw']
        obtain ⟨told, ht⟩ := publish_half (s := w) hw hw' p said
        obtain ⟨hf, hs⟩ := failed_of_eq ht
        exact ⟨hf, hs ▸ leaves_of_write hw⟩
      · intro hm
        have hw' : (Files.write path r.markdown : StateM σ _) half = (.ok (), _) :=
          Prod.ext (hm path rfl) rfl
        obtain ⟨told, ht⟩ := publish_markdown (s := w) hw hw' p said
        rw [show ended = _ from ht]
        exact ⟨rfl, rfl, leaves_of_writes hw hw' (hd path rfl)⟩

/-! ### A tree of files -/

/-- What a file holds, if it is there. -/
def FileTree.content (tree : FileTree) (names : List String) : Option (Option String) :=
  match tree.look names with
  | some (.file text) => some text
  | _ => none

/-- A tree of files keeps files under their names. -/
instance : Storage FileTree where
  File := List String
  denotes := FileTree.Denotes
  content := FileTree.content
  denotes_unique := FileTree.Denotes.unique
  read_asks _ _ := rfl
  present_asks _ _ := rfl
  isFolder_asks _ _ := rfl
  filesBelow_asks _ _ := rfl
  write_error := by
    intro path text tree tree' e h
    rw [write_tree_eq] at h
    split at h <;> cases h
    rfl
  write_ok := by
    intro path text tree tree' h
    rw [write_tree_eq] at h
    split at h
    · rename_i hw
      cases h
      obtain ⟨names, hd, hs⟩ := FileTree.saved_of_write hw
      refine ⟨⟨names, hd, ?_, ?_⟩, fun path file => hs.denotes_iff path⟩
      · simp [FileTree.content, hs.look_self]
      · intro other ho
        rw [FileTree.content, hs.look_of_ne ho, FileTree.content]
    · cases h

/-! ### The whole run -/

/-- A check for whose configuration or documents there is none fails, shows nothing and leaves all
    files as they were. So does a check whose report cannot be written; if only the Markdown cannot be
    written, the report is left complete and nothing else has changed. In any other case a check shows
    its report only when the files hold it, with errors as without, and the status is 1 if a diagnostic
    is an error and 0 if none is. -/
theorem check_effects {σ : Type} [Files (StateM σ)] [Storage σ] (w : Surroundings)
    {args : List String} {config : Option String} {verbose : Bool} {paths : List String}
    {output : String} {markdown : Option String}
    (hargs : CommandLine.parse args = .ok ⟨config, verbose, .check paths output markdown⟩)
    (before : σ)
    (hd : ∀ path ∈ markdown, ∀ file, Storage.denotes before output file →
      ¬ Storage.denotes before path file) :
    let outcome := ((runLine w args : StateM σ _) before).1
    let after := ((runLine w args : StateM σ _) before).2
    let configured := ((Config.find config : StateM σ _) before).1
    let found := ((findAll paths : StateM σ _) before).1
    (∀ e, configured = .error e → outcome.Failed ∧ after = before) ∧
    (∀ e, FailsFirst found e → outcome.Failed ∧ after = before) ∧
    ∀ c ds, configured = .ok c → Compatible found ds →
      ∃ g, TypeGraph.empty.load found = .ok g ∧ g.Collects ds ∧
        let o := (Verifier.ofConfig c).verify g
        let r := runReport w.now g o
        (∀ e, ((Files.write output r.text : StateM σ _) before).1 = .error e →
          outcome.Failed ∧ after = before) ∧
        ∀ half, (Files.write output r.text : StateM σ _) before = (.ok (), half) →
          (∀ path ∈ markdown, ∀ e, ((Files.write path r.markdown : StateM σ _) half).1 = .error e →
            outcome.Failed ∧ Leaves before after [(output, r.text)]) ∧
          ((∀ path ∈ markdown, ((Files.write path r.markdown : StateM σ _) half).1 = .ok ()) →
            outcome.status = (if ∃ d ∈ o.diagnostics, d.severity = .error then 1 else 0) ∧
            outcome.stdout = r.screen w.color ∧
            Leaves before after
              ((output, r.text) :: markdown.toList.map fun path => (path, r.markdown))) := by
  intro outcome after configured found
  have hrun : (runLine w args : StateM σ _) before =
      (run w ⟨config, verbose, .check paths output markdown⟩ : StateM σ _) before := by
    rw [runLine, hargs]
  have hfind : (Config.find config : StateM σ _) before = (configured, before) :=
    (find_asks config).run_eq before
  have hload : (loadPaths paths : StateM σ _) before = (TypeGraph.empty.load found, before) :=
    loadPaths_eq paths before
  have hunconfigured : ∀ e, configured = .error e → outcome.Failed ∧ after = before := by
    intro e he
    rw [he] at hfind
    exact failed_of_eq (hrun.trans (run_unconfigured hfind verbose _))
  refine ⟨hunconfigured, ?_, ?_⟩
  · intro e he
    rw [TypeGraph.load_of_failsFirst he] at hload
    cases hc : configured with
    | error e => exact hunconfigured e hc
    | ok c =>
      rw [hc] at hfind
      obtain ⟨told, text, ht⟩ := run_check_unloaded (s := w) hfind hload verbose output markdown
      exact failed_of_eq (hrun.trans ht)
  · intro c ds hc hds
    obtain ⟨g, hg, hgc⟩ := TypeGraph.load_of_compatible hds
    refine ⟨g, hg, hgc, ?_⟩
    intro o r
    rw [hc] at hfind
    rw [hg] at hload
    obtain ⟨p, said, hp⟩ := run_check_loaded (s := w) hfind hload verbose output markdown
    have hend := hrun.trans hp
    have hstatus : r.hasErrors = true ↔ ∃ d ∈ o.diagnostics, d.severity = .error := by
      rw [hasErrors_runReport]
      simp [Verification.hasErrors]
    obtain ⟨hunwritten, hwritten⟩ := publish_effects w p said r hd
    simp only [outcome, after, hend, ← hstatus]
    exact ⟨hunwritten, hwritten⟩

/-- A check of an empty document that writes both files. -/
theorem check_effects_markdown :
    let tree : FileTree :=
      .folder [("a.json", .file (some ({ types := [] } : Document).toJson.compact))]
    let args := ["check", "a.json", "-o", "r.json", "-m", "r.md"]
    let w : Surroundings := ⟨false, "today"⟩
    let outcome := ((runLine w args : StateM FileTree _) tree).1
    let after := ((runLine w args : StateM FileTree _) tree).2
    ∃ g, let r := runReport w.now g ((Verifier.ofConfig .default).verify g)
      outcome.status = 0 ∧ outcome.stdout = r.screen false ∧
        Leaves tree after [("r.json", r.text), ("r.md", r.markdown)] := by
  have hdoc := (Document.ofText_toJson { types := [] }).1
  generalize ({ types := [] } : Document).toJson.compact = text at hdoc ⊢
  intro tree args w outcome after
  have hargs : CommandLine.parse args =
      .ok ⟨none, false, .check ["a.json"] "r.json" (some "r.md")⟩ := by cbv
  -- both paths stand for files in the folder
  have hr : tree.Denotes "r.json" ["r.json"] :=
    FileTree.denotes_name (by decide) rfl (Option.some_ne_none _).symm
  have hm : tree.Denotes "r.md" ["r.md"] :=
    FileTree.denotes_name (by decide) rfl (Option.some_ne_none _).symm
  have hd : ∀ path ∈ some "r.md", ∀ file, tree.Denotes "r.json" file → ¬ tree.Denotes path file := by
    intro path hp file hf hf'
    cases hp
    have he := (hr.unique hf).trans (hf'.unique hm)
    simp at he
  -- there is no configuration, and the document makes up a graph without types
  have hc : ((Config.find none : StateM FileTree _) tree).1 = .ok .default := by
    rw [find_tree, FileTree.config_of_look_eq_none rfl]
  have hf : ((findAll ["a.json"] : StateM FileTree _) tree).1 = [⟨"a.json", .ok text⟩] := by
    have hl : tree.Locates "a.json" ["a.json"] :=
      FileTree.locates_name (by decide) (Option.some_ne_none _)
    rw [findAll_tree, FileTree.findings_file (FileTree.read_eq_ok_iff.2 ⟨_, hl, rfl⟩)]
  have hds : Compatible ((findAll ["a.json"] : StateM FileTree _) tree).1 [{ types := [] }] := by
    rw [hf]
    exact ⟨.cons ⟨⟨text, rfl, hdoc⟩, List.forall_mem_nil _, .nil⟩ .nil, List.pairwise_singleton _ _⟩
  obtain ⟨-, -, h⟩ := check_effects w hargs tree hd
  obtain ⟨g, -, hgc, -, h⟩ := h .default _ hc hds
  obtain ⟨half, hw⟩ := hr.write (runReport w.now g ((Verifier.ofConfig .default).verify g)).text
  obtain ⟨-, h⟩ := h half (write_tree hw)
  have hno : ¬ ∃ d ∈ ((Verifier.ofConfig .default).verify g).diagnostics, d.severity = .error := by
    have ht : g.types.toList = [] := hgc.types
    simp [Verifier.verify, TypeGraph.markedElements, ht]
  rw [if_neg hno] at h
  refine ⟨g, h ?_⟩
  intro path hp
  cases hp
  obtain ⟨names, -, hs⟩ := FileTree.saved_of_write hw
  obtain ⟨last, hw'⟩ := ((hs.denotes_iff "r.md").2 hm).write _
  exact congrArg Prod.fst (write_tree hw')

end Immutability
