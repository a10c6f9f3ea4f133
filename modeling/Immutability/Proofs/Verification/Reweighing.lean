import Immutability.Proofs.Command.Check
import Immutability.Proofs.Graph.Loading
import Immutability.Proofs.Keyed
import Immutability.Proofs.Verification.Exactness

/-! Verifying with other severities.

    The table of severities is looked up when a violation becomes a diagnostic, under the code of its
    rule, and nowhere else. So two tables lead to the same diagnostics up to their weights, and what
    a table holds under other texts is never asked for. Whether a run has errors, and with it how a
    check ends, is decided by the violations and by what the table says of their codes. -/

namespace Immutability

/-- Reading a table from a configuration is receiving the entries that are written there. -/
theorem Toml.Read.receive_of_keyed {α : Type} {known : List (String × α)}
    {es : List (String × Toml.Value)} {table : Keyed α} (h : keyed known (.table es) = .ok table) :
    ∃ written, entries (plain known) es = .ok written ∧ table = Keyed.empty.receive written := by
  rw [keyed] at h
  cases hes : entries (plain known) es with
  | error e =>
    rw [hes] at h
    cases h
  | ok written =>
    rw [hes] at h
    cases h
    exact ⟨written, rfl, rfl⟩

namespace Verifier

variable (v : Verifier) (g : TypeGraph)

/-- The verifier with another table of severities. -/
def reweighed (table : Severities) : Verifier := { v with severities := table }

/-- Some violation of a type that is marked and not left out weighs as an error. -/
def Alarms : Prop :=
  ∃ x : Violation, x.owner ∈ g.types ∧ x.owner.marked = true ∧
    skipped v.skipTypes x.owner.name = false ∧ x.Holds g v.registry ∧
    (v.severities.get? x.rule.code).getD .error = .error

/-- A violation is the same under every table, except for its weight. -/
theorem verify_reweighed (table : Severities) : (v.reweighed table).verify g =
    { v.verify g with diagnostics := (v.verify g).diagnostics.map fun d =>
        { d with severity := (table.get? d.rule.code).getD .error } } := by
  have hd : ((v.reweighed table).verify g).diagnostics = (v.verify g).diagnostics.map fun d =>
      { d with severity := (table.get? d.rule.code).getD .error } := by
    rw [verify_diagnostics_eq_map, verify_diagnostics_eq_map, List.map_map]
    rfl
  rw [← hd, verify_eq_total, verify_eq_total, total_eq_of_skipTypes (v := v) rfl g g]
  rfl

theorem severity_of_mem {d : Diagnostic} (hd : d ∈ (v.verify g).diagnostics) :
    d.severity = (v.severities.get? d.rule.code).getD .error := by
  rw [verify_diagnostics_eq_map] at hd
  obtain ⟨x, -, rfl⟩ := List.mem_map.1 hd
  rfl

/-- Tables that agree on the codes of the rules lead to the same run. -/
theorem verify_reweighed_of_agree {table : Severities}
    (h : ∀ rule : Rule, table.get? rule.code = v.severities.get? rule.code) :
    (v.reweighed table).verify g = v.verify g := by
  have hd : ((v.verify g).diagnostics.map fun d =>
      { d with severity := (table.get? d.rule.code).getD .error }) = (v.verify g).diagnostics := by
    refine map_eq_self ?_
    intro d hd
    rw [h, ← v.severity_of_mem g hd]
  rw [verify_reweighed, hd]

/-- Entries under texts that are no codes change nothing. -/
theorem verify_receive_foreign {entries : List (String × Severity)}
    (h : ∀ e ∈ entries, ∀ rule : Rule, e.1 ≠ rule.code) :
    (v.reweighed (v.severities.receive entries)).verify g = v.verify g := by
  refine v.verify_reweighed_of_agree g ?_
  intro rule
  have hl : entries.reverse.lookup rule.code = none := by
    rw [List.lookup_eq_none_iff]
    intro e he
    simpa using (h e (List.mem_reverse.1 he) rule).symm
  rw [Keyed.get?_receive, hl, Option.none_or]

/-- A run has errors if some violation weighs as one. -/
theorem hasErrors_iff {g : TypeGraph} (h : g.WellFormed) :
    (v.verify g).hasErrors = true ↔ v.Alarms g := by
  rw [Verification.hasErrors, verify_diagnostics_eq_map, List.any_map, List.any_eq_true]
  constructor
  · rintro ⟨x, hx, he⟩
    obtain ⟨ht, hc, hh⟩ := (mem_violations h).1 hx
    rw [checks, Bool.and_eq_true, Bool.not_eq_true'] at hc
    exact ⟨x, ht, hc.1, hc.2, hh, of_decide_eq_true he⟩
  · rintro ⟨x, ht, hm, hs, hh, he⟩
    refine ⟨x, (mem_violations h).2 ⟨ht, ?_, hh⟩, decide_eq_true he⟩
    rw [checks, Bool.and_eq_true, Bool.not_eq_true']
    exact ⟨hm, hs⟩

end Verifier

/-- After every history of a graph, two tables of severities lead to the same run up to the severities
    of its diagnostics. Each of these is the entry that the table has received last under the code of
    the rule, be it from a configuration or afterwards, or an error if it has received none; entries
    under other texts change nothing. So a run has errors exactly if some violation of a type that is
    not skipped weighs as an error, and a check whose documents can be loaded, and whose files can be
    written, ends with the status of a failure exactly in that case. -/
theorem verify_reweighing (history : List Operation) (v : Verifier) (table : Severities) :
    let g := TypeGraph.run history
    let v' : Verifier := { v with severities := table }
    -- one run and another
    v'.verify g = { v.verify g with diagnostics := (v.verify g).diagnostics.map fun d =>
      { d with severity := (table.get? d.rule.code).getD .error } } ∧
    -- entries
    (∀ es read, Toml.Read.keyed Config.severityNames (.table es) = .ok read →
      ∃ entries, Toml.Read.entries (Toml.Read.plain Config.severityNames) es = .ok entries ∧
        read = Keyed.empty.receive entries) ∧
    (∀ entries,
      let w : Verifier := { v with severities := table.receive entries }
      ∀ d ∈ (w.verify g).diagnostics, d.severity =
        ((entries.reverse.lookup d.rule.code).or (table.get? d.rule.code)).getD .error) ∧
    (∀ entries : List (String × Severity), (∀ e ∈ entries, ∀ rule : Rule, e.1 ≠ rule.code) →
      ({ v with severities := table.receive entries } : Verifier).verify g = v'.verify g) ∧
    -- errors
    ((v'.verify g).hasErrors = true ↔ v'.Alarms g) ∧
    ∀ (s : Surroundings) (c : Config) (verbose : Bool) (paths : List String) (output : String)
      (markdown : Option String) (tree tree' : FileTree) (loaded : TypeGraph),
      let o := (Verifier.ofConfig c).verify loaded
      (loadPaths paths : StateM FileTree _) tree = (.ok loaded, tree) →
      tree.Saves (runReport s.now loaded o) output markdown tree' →
      ∃ outcome, (runCheck s c verbose paths output markdown : StateM FileTree _) tree =
        (outcome, tree') ∧ (outcome.status = 1 ↔ (Verifier.ofConfig c).Alarms loaded) ∧
          (outcome.status = 0 ↔ ¬ (Verifier.ofConfig c).Alarms loaded) := by
  intro g v'
  have h : g.WellFormed := TypeGraph.wellFormed_run history
  refine ⟨v.verify_reweighed g table, ?_, ?_, ?_, v'.hasErrors_iff h, ?_⟩
  · intro es read hr
    exact Toml.Read.receive_of_keyed hr
  · intro entries w d hd
    rw [← Keyed.get?_receive]
    exact w.severity_of_mem g hd
  · intro entries he
    exact v'.verify_receive_foreign g he
  · intro s c verbose paths output markdown tree tree' loaded o hl hs
    have hg : TypeGraph.empty.load (tree.findings paths) = .ok loaded := by
      rw [loadPaths_tree] at hl
      exact congrArg Prod.fst hl
    have he := (Verifier.ofConfig c).hasErrors_iff (.load hg)
    rw [← hasErrors_runReport s.now loaded] at he
    obtain ⟨told, ht⟩ := runCheck_tree hg hs verbose
    refine ⟨_, ht, ?_⟩
    by_cases ha : (Verifier.ofConfig c).Alarms loaded
    · rw [if_pos (he.2 ha)]
      simp [ha]
    · rw [if_neg fun hr => ha (he.1 hr)]
      simp [ha]

/-- A check of a class that is not final fails, unless the configuration makes a warning of that. -/
theorem verify_reweighing_point :
    let point : TypeDeclaration := { name := "a.Point", kind := .classKind, marked := true }
    let text := ({ types := [point] } : Document).toJson.compact
    let tree : FileTree := .folder [("d", .file (some text))]
    let table : Severities := Keyed.empty.receive
      [(Rule.notFinal.code, .note), ("else", .error), (Rule.notFinal.code, .warn)]
    let c : Config := { severities := table }
    let s : Surroundings := ⟨false, "today"⟩
    (∃ outcome tree', (runCheck s {} false ["d"] "r" none : StateM FileTree _) tree =
      (outcome, tree') ∧ outcome.status = 1) ∧
    ∃ outcome tree', (runCheck s c false ["d"] "r" none : StateM FileTree _) tree =
      (outcome, tree') ∧ outcome.status = 0 := by
  intro point text tree table c s
  -- the document is found and loaded
  have hd : FileTree.steps "d" = ["d"] := FileTree.steps_of_notMem (by decide)
  have hf : tree.findings ["d"] = [⟨"d", .ok text⟩] := by
    simp [FileTree.findings, FileTree.documentsAt, FileTree.isFolder, FileTree.read,
      FileTree.place, hd, FileTree.follow, tree]
  have hc : Compatible (tree.findings ["d"]) [{ types := [point] }] := by
    rw [hf]
    refine ⟨.cons ⟨⟨_, rfl, (Document.ofText_toJson _).1⟩, ?_, List.nodup_singleton _⟩ .nil, ?_⟩
    · exact List.forall_mem_singleton.2 ⟨.nil, fun f hf => absurd hf List.not_mem_nil⟩
    · simp
  obtain ⟨g, hg, hgc⟩ := TypeGraph.load_of_compatible hc
  have hl : (loadPaths ["d"] : StateM FileTree _) tree = (.ok g, tree) := by
    rw [loadPaths_tree, hg]
  have ht : ∀ t, t ∈ g.types ↔ t = point.stamped := by
    intro t
    rw [← Array.mem_toList_iff, hgc.types]
    simp
  -- a report can be written beside it
  have hw : ∀ r : Report, ∃ tree', tree.Saves r "r" none tree' := by
    intro r
    have hr : FileTree.steps "r" = ["r"] := FileTree.steps_of_notMem (by decide)
    have hn : [("d", FileTree.file (some text))].lookup "r" = none := rfl
    refine ⟨.folder [("d", .file (some text)), ("r", .file (some r.text))], .text ?_⟩
    simp [FileTree.write, FileTree.place, hr, FileTree.follow, tree, hn, FileTree.Place.root,
      FileTree.setEntry]
  obtain ⟨-, -, -, -, -, hcheck⟩ := verify_reweighing [] (.ofConfig {}) table
  constructor
  · -- the violation weighs as an error
    have ha : (Verifier.ofConfig {}).Alarms g :=
      ⟨.notFinal point.stamped, (ht _).2 rfl, rfl, rfl, ⟨rfl, rfl⟩, rfl⟩
    obtain ⟨tree', hs⟩ := hw (runReport s.now g ((Verifier.ofConfig {}).verify g))
    obtain ⟨outcome, ho, h1, -⟩ := hcheck s {} false ["d"] "r" none tree tree' g hl hs
    exact ⟨outcome, tree', ho, h1.2 ha⟩
  · have ha : ¬ (Verifier.ofConfig c).Alarms g := by
      rintro ⟨x, hx, -, -, hh, hw⟩
      have ho : x.owner = point.stamped := (ht _).1 hx
      cases x with
      | notFinal t => cases hw
      | wrongKind t =>
        cases ho
        rcases hh with hk | hk | hk <;> cases hk
      | _ =>
        -- there are no fields
        cases ho
        cases hh.2.1
    obtain ⟨tree', hs⟩ := hw (runReport s.now g ((Verifier.ofConfig c).verify g))
    obtain ⟨outcome, ho, -, h0⟩ := hcheck s c false ["d"] "r" none tree tree' g hl hs
    exact ⟨outcome, tree', ho, h0.2 ha⟩

end Immutability
