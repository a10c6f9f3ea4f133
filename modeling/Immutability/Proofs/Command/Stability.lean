import Immutability.Proofs.Diagnostic.Json
import Immutability.Proofs.Discovery
import Immutability.Proofs.Document.Presentation
import Immutability.Proofs.Graph.Loading
import Immutability.Proofs.Graph.Reload
import Immutability.Proofs.Verification.Settling

/-! Checks that find their own reports.

    A report may be written among the documents of the next check, and is then found as a document
    itself. What a reader of documents sees of it is the front end of the graph and nothing else, so
    it adds nothing to a graph of the same front end, wherever it comes among the documents. A check
    that is run again finds the same graph and writes the same report, but for the time. -/

namespace Immutability

open Json

/-! ### A report as a document -/

/-- Reports have no decimal numbers, unless their metadata has some. -/
theorem Report.integral_toJson {r : Report} (h : ∀ v ∈ r.metadata, v.integral = true) :
    r.toJson.integral = true := by
  have hd : (Json.sequence (r.diagnostics.map Diagnostic.toJson)).integral = true :=
    (ReadAs.list fun d _ => d.readAs).integral
  have hv : r.version.toJson.integral = true := rfl
  have hs : r.summary.toJson.integral = true := rfl
  have ht : (Json.text r.timestamp).integral = true := rfl
  rw [toJson, integral, List.cons_append, List.cons_append, List.cons_append, List.cons_append]
  simp only [integralMembers, hv, hs, ht, hd, Bool.true_and]
  cases hm : r.metadata with
  | none => rfl
  | some v => simp [member?, integralMembers, h v hm]

theorem integral_runMetadata (g : TypeGraph) (o : Verification) :
    (runMetadata g o).integral = true := by
  have hp : (Json.ofText? g.metadata.producer).integral = true :=
    (readAs_ofText? g.metadata.producer).integral
  have hs : (Json.sequence (o.skipped.map .text)).integral = true :=
    (ReadAs.list fun s _ => .text s).integral
  have ht : (Json.integer g.size).integral = true := rfl
  have hf : (Json.text g.fingerprint).integral = true := rfl
  rw [runMetadata, integral]
  simp only [integralMembers, hf, hp, hs, ht, Bool.and_self]

/-- What a reader of documents sees of the report of a run over a graph: who produced the graph. -/
def TypeGraph.imprint (g : TypeGraph) : Document := ⟨⟨g.metadata.producer, none⟩, []⟩

theorem runMetadata_form (g : TypeGraph) (o : Verification) :
    Metadata.form (runMetadata g o).tree g.imprint.metadata :=
  Form.record_tree ⟨.written rfl (Json.form_ofText? g.metadata.producer), .omitted rfl rfl⟩

theorem runReport_form (now : String) (g : TypeGraph) (o : Verification) :
    Document.form (runReport now g o).toJson.tree g.imprint :=
  Form.record_tree ⟨.written rfl (runMetadata_form g o), .omitted rfl rfl⟩

theorem ofText_runReport (now : String) (g : TypeGraph) (o : Verification) :
    Document.ofText (runReport now g o).text = .ok g.imprint := by
  have hi : (runReport now g o).toJson.integral = true := by
    refine Report.integral_toJson ?_
    rintro v ⟨⟩
    exact integral_runMetadata g o
  have hw : Written (runReport now g o).text (runReport now g o).toJson.tree := written_indented hi
  rw [Document.ofText, hw.ofText_eq, Source.read,
    Document.form_takenBy _ _ hw.intact (runReport_form now g o)]
  rfl

/-- A report is loaded as a graph without declarations. -/
theorem TypeGraph.ofText_runReport (now : String) (g : TypeGraph) (o : Verification) :
    ∃ h, TypeGraph.ofText (runReport now g o).text = .ok h ∧ h.types = #[] ∧
      h.metadata = ⟨g.metadata.producer, none⟩ := by
  obtain ⟨h, hh, hm, ht⟩ := TypeGraph.ofDocument_of_acceptable (d := g.imprint) nofun .nil
  refine ⟨h, ?_, Array.toList_inj.1 ht, hm⟩
  simp only [TypeGraph.ofText, Immutability.ofText_runReport, hh]

/-! ### Documents with reports among them -/

/-- Documents without declarations are compatible with all others. -/
theorem Compatible.padded {fs fs' : List Finding} {ds : List Document} {text : String}
    {d : Document} (h : Compatible fs ds) (hp : Padded (fun f => f.content = .ok text) fs fs')
    (ht : Document.ofText text = .ok d) (hd : d.types = []) :
    ∃ ds', Padded (· = d) ds ds' ∧ Compatible fs' ds' := by
  induction hp generalizing ds with
  | nil =>
    cases h.holds
    exact ⟨[], .nil, h⟩
  | @keep f fs fs' hp ih =>
    obtain ⟨hholds, hdis⟩ := h
    cases hholds with
    | cons hf hfs =>
      rename_i e ds
      obtain ⟨he, hdis⟩ := List.pairwise_cons.1 hdis
      obtain ⟨ds', hds, hc⟩ := ih ⟨hfs, hdis⟩
      refine ⟨e :: ds', .keep hds, .cons hf hc.holds, List.pairwise_cons.2 ⟨?_, hc.disjoint⟩⟩
      intro e' he'
      rcases hds.mem he' with he' | rfl
      · exact he e' he'
      · intro t ht u hu
        rw [hd] at hu
        cases hu
  | @pad f fs fs' hf hp ih =>
    obtain ⟨ds', hds, hc⟩ := ih h
    have hholds : f.Holds d := by
      refine ⟨⟨text, hf, ht⟩, ?_, ?_⟩ <;> rw [hd]
      · exact nofun
      · exact .nil
    refine ⟨d :: ds', .pad rfl hds, .cons hholds hc.holds, List.pairwise_cons.2 ⟨?_, hc.disjoint⟩⟩
    intro e he t ht
    rw [hd] at ht
    cases ht

/-- Documents that make up a graph could all be read. -/
theorem TypeGraph.readable_of_load {fs : List Finding} {g : TypeGraph} (hg : empty.load fs = .ok g) :
    ∀ f ∈ fs, ∃ content, f.content = .ok content := by
  obtain ⟨ds, hds⟩ := exists_load_iff.1 ⟨g, hg⟩
  have hr : List.Forall₂ (fun f d => (∃ content, f.content = .ok content) ∧ f.Holds d) fs ds :=
    hds.holds.imp fun f d hf => ⟨hf.text.imp fun content h => h.1, hf⟩
  exact ((List.forall₂_and_left fs ds).1 hr).1

/-- Reports of a graph among its documents do not change the graph. -/
theorem TypeGraph.load_padded {fs fs' : List Finding} {g : TypeGraph} {now : String}
    {o : Verification} (hg : empty.load fs = .ok g)
    (hp : Padded (fun f => f.content = .ok (runReport now g o).text) fs fs') :
    ∃ g', empty.load fs' = .ok g' ∧ g'.Agrees g := by
  obtain ⟨ds, hds⟩ := exists_load_iff.1 ⟨g, hg⟩
  obtain ⟨g₁, hg₁, hc⟩ := load_of_compatible hds
  rw [hg] at hg₁
  cases hg₁
  obtain ⟨ds', hdp, hds'⟩ := hds.padded hp (Immutability.ofText_runReport now g o) rfl
  obtain ⟨g', hg', hc'⟩ := load_of_compatible hds'
  refine ⟨g', hg', hc'.wellFormed.agrees hc.wellFormed (congrArg₂ Metadata.mk ?_ ?_)
    (Array.toList_inj.1 ?_)⟩
  · have hp : ∀ d, d = g.imprint → d.metadata.producer = none ∨
        d.metadata.producer = ds.findSome? (·.metadata.producer) := by
      rintro _ rfl
      exact Or.inr hc.producer
    rw [hc'.producer, hc.producer]
    exact (hdp.findSome?_or hp).elim id id
  · have hn : ∀ d, d = g.imprint → d.metadata.generatedAt = none ∨
        d.metadata.generatedAt = ds.findSome? (·.metadata.generatedAt) := by
      rintro _ rfl
      exact Or.inl rfl
    rw [hc'.generatedAt, hc.generatedAt]
    exact (hdp.findSome?_or hn).elim id id
  · rw [hc'.types, hc.types]
    refine hdp.flatMap_eq ?_
    rintro _ rfl
    rfl

/-! ### Checks run again -/

theorem Report.ofDiagnostics_timestamp (now later : String) (ds : List Diagnostic) :
    ofDiagnostics later ds = { ofDiagnostics now ds with timestamp := later } := by
  induction ds using List.reverseRecOn with
  | nil => rfl
  | append_singleton ds d ih =>
    simp only [ofDiagnostics, List.foldl_concat] at ih ⊢
    rw [ih]
    rfl

/-- A report tells when it was made, and nothing else of it depends on that. -/
theorem runReport_timestamp (now later : String) (g : TypeGraph) (o : Verification) :
    runReport later g o = { runReport now g o with timestamp := later } := by
  rw [runReport, Verification.toReport, Report.ofDiagnostics_timestamp now later]
  rfl

/-- Graphs that agree have the same report, but for the time. -/
theorem TypeGraph.Agrees.runReport_again {g g' : TypeGraph} (h : g'.Agrees g) (hg : g.WellFormed)
    (hg' : g'.WellFormed) (now later : String) (v : Verifier) :
    runReport later g' (v.verify g') = { runReport now g (v.verify g) with timestamp := later } := by
  have hm : runMetadata g' (v.verify g) = runMetadata g (v.verify g) := by
    rw [runMetadata, runMetadata, fingerprint_eq_of_types h.types, h.metadata, size, size, h.types]
  rw [hg'.verify_eq_of_types hg h.types v, ← runReport_timestamp now later, runReport, runReport, hm]

namespace FileTree

variable {tree tree' : FileTree} {file : Option String} {paths : List String} {output : String}

/-- A check without Markdown has what it needs: a configuration, documents that make up a graph, and
    a path to write to. -/
structure Ready (tree : FileTree) (file : Option String) (paths : List String) (output : String)
    (c : Config) (g : TypeGraph) (names : List String) : Prop where
  config : tree.config file = .ok c
  load : TypeGraph.empty.load (tree.findings paths) = .ok g
  denotes : tree.Denotes output names

/-- A check that has what it needs writes its report, and what it writes does not decide on that. -/
theorem Ready.run {c : Config} {g : TypeGraph} {names : List String}
    (h : tree.Ready file paths output c g names) (s : Surroundings) (verbose : Bool) :
    let r := runReport s.now g ((Verifier.ofConfig c).verify g)
    ∃ told tree', tree.write output r.text = .ok tree' ∧
      (Immutability.run s ⟨file, verbose, .check paths output none⟩ : StateM FileTree _) tree =
        ({ status := if r.hasErrors then 1 else 0, stdout := r.screen s.color, stderr := told },
          tree') := by
  intro r
  have hc : (Config.find file : StateM FileTree _) tree = (.ok c, tree) := by
    rw [find_tree, h.config]
  have hl : (loadPaths paths : StateM FileTree _) tree = (.ok g, tree) := by
    rw [loadPaths_tree, h.load]
  obtain ⟨p, said, hp⟩ := run_check_loaded (s := s) hc hl verbose output none
  obtain ⟨tree', hw⟩ := h.denotes.write r.text
  obtain ⟨told, ht⟩ := publish_text (s := s) (write_tree hw) p said
  exact ⟨told, tree', hw, hp.trans ht⟩

/-- A check that lacks something fails and leaves the tree as it is, whatever surrounds it. -/
theorem ready_or_fails (tree : FileTree) (file : Option String) (paths : List String)
    (output : String) : (∃ c g names, tree.Ready file paths output c g names) ∨
      ∀ s verbose, ∃ told text,
        (Immutability.run s ⟨file, verbose, .check paths output none⟩ : StateM FileTree _) tree =
          (.failure told text, tree) := by
  cases hc : tree.config file with
  | error e =>
    right
    intro s verbose
    have hf : (Config.find file : StateM FileTree _) tree = (.error e, tree) := by
      rw [find_tree, hc]
    exact ⟨_, _, run_unconfigured hf verbose _⟩
  | ok c =>
    have hf : (Config.find file : StateM FileTree _) tree = (.ok c, tree) := by
      rw [find_tree, hc]
    cases hg : TypeGraph.empty.load (tree.findings paths) with
    | error e =>
      right
      intro s verbose
      have hl : (loadPaths paths : StateM FileTree _) tree = (.error e, tree) := by
        rw [loadPaths_tree, hg]
      exact run_check_unloaded hf hl verbose output none
    | ok g =>
      by_cases hd : ∃ names, tree.Denotes output names
      · obtain ⟨names, hd⟩ := hd
        exact Or.inl ⟨c, g, names, hc, hg, hd⟩
      · right
        intro s verbose
        have hl : (loadPaths paths : StateM FileTree _) tree = (.ok g, tree) := by
          rw [loadPaths_tree, hg]
        obtain ⟨p, said, hp⟩ := run_check_loaded (s := s) hf hl verbose output none
        cases hw : tree.write output (runReport s.now g ((Verifier.ofConfig c).verify g)).text with
        | ok tree' =>
          obtain ⟨names, hn, -⟩ := saved_of_write hw
          exact absurd ⟨names, hn⟩ hd
        | error e =>
          have hu := write_tree_eq tree output (runReport s.now g ((Verifier.ofConfig c).verify g)).text
          rw [hw] at hu
          exact ⟨_, _, hp.trans (publish_unwritten hu p said none)⟩

theorem Saved.configAt {text path : String} {names : List String} {c : Config}
    (h : Saved text names tree tree') (hn : tree.look names = none)
    (hc : tree.configAt path = .ok c) : tree'.configAt path = .ok c := by
  rw [FileTree.configAt] at hc ⊢
  cases hr : tree.read path with
  | error e => simp [hr] at hc
  | ok content =>
    rw [hr] at hc
    rw [h.read hn hr]
    exact hc

/-- A new file that is not the usual configuration does not change a configuration that was there. -/
theorem Saved.config {text : String} {names : List String} {c : Config}
    (h : Saved text names tree tree') (hn : tree.look names = none) (hne : names ≠ [Config.fileName])
    (hc : tree.config file = .ok c) : tree'.config file = .ok c := by
  cases file with
  | some path => exact h.configAt hn hc
  | none =>
    have he : tree'.exists? Config.fileName = tree.exists? Config.fileName := by
      rw [Bool.eq_iff_iff, exists?_name (by decide), exists?_name (by decide),
        h.look_of_ne (Ne.symm hne)]
    rw [FileTree.config] at hc ⊢
    rw [he]
    by_cases hp : tree.exists? Config.fileName = true
    · rw [if_pos hp] at hc ⊢
      exact h.configAt hn hc
    · rwa [if_neg hp] at hc ⊢

/-- The file of a path with the ending of JSON files is not the usual configuration. -/
theorem Denotes.ne_config {names : List String} (h : tree.Denotes output names)
    (he : output.endsWith ".json" = true) : names ≠ [Config.fileName] := by
  obtain @⟨before, here, last, -, hs, -, -, -, -⟩ := h
  intro hnames
  have hlast : last = Config.fileName := by simpa using congrArg List.getLast? hnames
  have hend := endsWith_of_steps hs he (by decide)
  rw [hlast, endsWith_iff] at hend
  exact absurd hend (by decide)

/-- A check that has what it needs has it again when its report is among the documents. -/
theorem Ready.again {c : Config} {g : TypeGraph} {names : List String} {now : String}
    (h : tree.Ready file paths output c g names) (hn : tree.look names = none)
    (he : output.endsWith ".json" = true)
    (hs : Saved (runReport now g ((Verifier.ofConfig c).verify g)).text names tree tree') :
    ∃ g', tree'.Ready file paths output c g' names ∧ g'.Agrees g := by
  have hr := TypeGraph.readable_of_load h.load
  obtain ⟨g', hg', ha⟩ := TypeGraph.load_padded h.load (hs.findings hn h.denotes.isName hr)
  refine ⟨g', ⟨?_, hg', ?_⟩, ha⟩
  · exact hs.config hn (h.denotes.ne_config he) h.config
  · exact (hs.denotes_iff output).2 h.denotes

end FileTree

/-- The text of the report of a run over a graph is read as a graph without declarations that knows
    the front end of the graph and nothing else. Found anywhere among the documents of the graph, it
    leaves the graph as it is.

    So a check that makes a new file with the ending of JSON files for its report, and then is run
    again, ends in the same status. If it fails, so does the second, and no file is made. Otherwise
    both write the same report, each with its own time, wherever the first report was written. -/
theorem check_stable :
    (∀ (history : List Operation) (now : String) (o : Verification),
      let g := TypeGraph.run history
      ∃ h, TypeGraph.ofText (runReport now g o).text = .ok h ∧ h.types = #[] ∧
        h.metadata = ⟨g.metadata.producer, none⟩) ∧
    (∀ (before after : List Finding) (g : TypeGraph) (path now : String) (o : Verification),
      TypeGraph.empty.load (before ++ after) = .ok g →
        ∃ g', TypeGraph.empty.load (before ++ ⟨path, .ok (runReport now g o).text⟩ :: after) = .ok g' ∧
          g'.Agrees g ∧ g'.fingerprint = g.fingerprint) ∧
    ∀ (tree : FileTree) (s s' : Surroundings) (config : Option String) (verbose : Bool)
      (paths : List String) (output : String),
      output.endsWith ".json" = true → tree.exists? output = false →
      let i : Invocation := ⟨config, verbose, .check paths output none⟩
      let first := (run s i : StateM FileTree _) tree
      let second := (run s' i : StateM FileTree _) first.2
      second.1.status = first.1.status ∧
        (first.1.status = 1 ∧ first.2 = tree ∧ second.2 = tree ∨
          ∃ r : Report, r.timestamp = s.now ∧ first.2.read output = .ok r.text ∧
            second.2.read output = .ok { r with timestamp := s'.now }.text) := by
  refine ⟨?_, ?_, ?_⟩
  · intro history now o g
    exact TypeGraph.ofText_runReport now g o
  · intro before after g path now o hg
    have hp : Padded (fun f : Finding => f.content = .ok (runReport now g o).text)
        (before ++ after) (before ++ ⟨path, .ok (runReport now g o).text⟩ :: after) := by
      refine .one ?_ before after
      rfl
    obtain ⟨g', hg', ha⟩ := TypeGraph.load_padded hg hp
    exact ⟨g', hg', ha, TypeGraph.fingerprint_eq_of_types ha.types⟩
  · intro tree s s' config verbose paths output he hx i first second
    rcases tree.ready_or_fails config paths output with ⟨c, g, names, h⟩ | h
    · obtain ⟨told, tree', hw, hrun⟩ := h.run s verbose
      obtain ⟨names', hd, hs⟩ := FileTree.saved_of_write hw
      cases h.denotes.unique hd
      obtain ⟨g', h', hagree⟩ := h.again (h.denotes.look_eq_none hx) he hs
      obtain ⟨told', tree'', hw', hrun'⟩ := h'.run s' verbose
      have hsecond : second = (run s' i : StateM FileTree _) tree' :=
        congrArg (run s' i : StateM FileTree _) (congrArg Prod.snd hrun)
      have hr := hagree.runReport_again (.load h.load) (.load h'.load) s.now s'.now (.ofConfig c)
      rw [hr] at hrun' hw'
      rw [hsecond.trans hrun', show first = _ from hrun]
      have hnow := congrArg Report.timestamp
        (runReport_timestamp s.now s.now g ((Verifier.ofConfig c).verify g))
      exact ⟨rfl, Or.inr ⟨_, hnow, FileTree.read_of_write hw, FileTree.read_of_write hw'⟩⟩
    · obtain ⟨told, text, hrun⟩ := h s verbose
      obtain ⟨told', text', hrun'⟩ := h s' verbose
      have hsecond : second = (run s' i : StateM FileTree _) tree :=
        congrArg (run s' i : StateM FileTree _) (congrArg Prod.snd hrun)
      rw [hsecond.trans hrun', show first = _ from hrun]
      exact ⟨rfl, Or.inl ⟨rfl, rfl, rfl⟩⟩

/-- A check of a folder that writes its report into the folder, and is run again. -/
theorem check_stable_folder :
    let d : Document := { metadata := { producer := some "front end" } }
    let tree : FileTree := .folder [("a.json", .file (some d.toJson.compact))]
    let i : Invocation := ⟨none, false, .check ["."] "r.json" none⟩
    let first := (run ⟨false, "today"⟩ i : StateM FileTree _) tree
    let second := (run ⟨true, "tomorrow"⟩ i : StateM FileTree _) first.2
    first.1.status = 0 ∧ second.1.status = 0 ∧
      ∃ r : Report, r.timestamp = "today" ∧ first.2.read "r.json" = .ok r.text ∧
        second.2.read "r.json" = .ok { r with timestamp := "tomorrow" }.text := by
  intro d
  have hdoc := d.ofText_toJson.1
  generalize d.toJson.compact = text at hdoc ⊢
  intro tree i first second
  -- the folder has one document
  have hroot : tree.Locates "." [] := by
    refine ⟨by decide, by simp, ?_⟩
    rw [FileTree.steps_of_notMem (by decide)]
    exact .stay rfl (Or.inr rfl) .done
  have hread : tree.read (joinSteps "." ["a.json"]) = .ok text :=
    FileTree.read_eq_ok_iff.2 ⟨_, hroot.joinSteps_singleton (by decide) (Option.some_ne_none _), rfl⟩
  have hf : tree.findings ["."] = [⟨joinSteps "." ["a.json"], .ok text⟩] := by
    have hd : documentsAmong "." [["a.json"]] = [joinSteps "." ["a.json"]] := by
      have hn : isDocumentName "a.json" = true := by decide
      simp [documentsAmong, hn]
    have hfolder : tree.isFolder "." = true := FileTree.isFolder_iff.2 ⟨[], hroot, rfl⟩
    have hfiles : tree.filesBelow "." = [["a.json"]] := hroot.filesBelow rfl
    rw [FileTree.findings, List.flatMap_singleton, FileTree.documentsAt, if_pos hfolder, hfiles, hd,
      List.map_singleton, hread]
  have hds : Compatible (tree.findings ["."]) [d] := by
    rw [hf]
    exact ⟨.cons ⟨⟨text, rfl, hdoc⟩, List.forall_mem_nil _, .nil⟩ .nil, List.pairwise_singleton _ _⟩
  obtain ⟨g, hg, hgc⟩ := TypeGraph.load_of_compatible hds
  -- nothing stands at the path of the report yet
  have he : tree.exists? "r.json" = false := by
    rw [← Bool.not_eq_true, FileTree.exists?_name (by decide)]
    exact not_not_intro rfl
  have hready : tree.Ready none ["."] "r.json" .default g ["r.json"] :=
    ⟨FileTree.config_of_look_eq_none rfl, hg,
      FileTree.denotes_name (by decide) rfl (Option.some_ne_none _).symm⟩
  have hstatus : first.1.status = 0 := by
    obtain ⟨told, tree', -, hrun⟩ := hready.run ⟨false, "today"⟩ false
    rw [show first = _ from hrun]
    have ht : g.types.toList = [] := hgc.types
    have hno : ((Verifier.ofConfig .default).verify g).hasErrors = false := by
      simp [Verification.hasErrors, Verifier.verify, TypeGraph.markedElements, ht]
    simp [hasErrors_runReport, hno]
  obtain ⟨-, -, hstable⟩ := check_stable
  obtain ⟨hsame, hfailed | hr⟩ :=
    hstable tree ⟨false, "today"⟩ ⟨true, "tomorrow"⟩ none false ["."] "r.json"
      ((endsWith_iff _ _).2 (by decide)) he
  · rw [show first.1.status = 1 from hfailed.1] at hstatus
    cases hstatus
  · exact ⟨hstatus, hsame.trans hstatus, hr⟩

end Immutability
