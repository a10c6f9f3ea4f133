import Immutability.Proofs.Document.Presentation
import Immutability.Proofs.Graph.Reload
import Immutability.Proofs.Verification.Settling

/-! Graphs that are loaded from the texts of the same declarations.

    A graph stamps the fields of its declarations with their owners, so it does not matter whether a
    text names them. Whatever text of the same declarations is loaded, the graph holds the same
    declarations; and neither a fingerprint nor a run depends on anything else. -/

namespace Immutability

open Json

namespace TypeDeclaration

variable {t u : TypeDeclaration} {ts us : List TypeDeclaration}

/-- Whether a type is acceptable does not depend on which of its fields name their owner. -/
theorem Reowned.acceptable (h : t.Reowned u) (ht : t.Acceptable) : u.Acceptable := by
  refine ⟨?_, h.unclaimed⟩
  rw [← map_name_fields_stamped, h.stamped_eq, map_name_fields_stamped]
  exact ht.distinct

theorem map_stamped_of_reowned (h : List.Forall₂ Reowned ts us) :
    us.map stamped = ts.map stamped := by
  induction h with
  | nil => rfl
  | cons h hs ih => rw [List.map_cons, List.map_cons, h.stamped_eq, ih]

theorem map_name_of_reowned (h : List.Forall₂ Reowned ts us) :
    us.map (·.name) = ts.map (·.name) := by
  simpa [Function.comp_def] using congrArg (List.map (·.name)) (map_stamped_of_reowned h)

theorem acceptable_of_reowned (h : List.Forall₂ Reowned ts us) (ha : ∀ t ∈ ts, t.Acceptable) :
    ∀ u ∈ us, u.Acceptable := by
  induction h with
  | nil => exact nofun
  | cons h hs ih =>
    obtain ⟨ht, hts⟩ := List.forall_mem_cons.1 ha
    exact List.forall_mem_cons.2 ⟨h.acceptable ht, ih hts⟩

end TypeDeclaration

namespace TypeGraph

/-! ### Texts of the same declarations -/

/-- Every text of acceptable declarations is loaded as a graph that holds them. -/
theorem ofText_of_presents {ts : List TypeDeclaration} {g : TypeGraph}
    (h : ofDeclarations ts = .ok g) {s : String} (hs : Presents s ts) :
    ∃ g', ofText s = .ok g' ∧ g'.types = g.types := by
  obtain ⟨ha, hn, ht⟩ := acceptable_of_ofDocument h
  obtain ⟨d, hd, hr⟩ := hs.ofText
  -- owners decide neither on names nor on what is acceptable, and stamping replaces them
  rw [← TypeDeclaration.map_name_of_reowned hr] at hn
  obtain ⟨g', hg', -, ht'⟩ :=
    ofDocument_of_acceptable (TypeDeclaration.acceptable_of_reowned hr ha) hn
  refine ⟨g', ?_, Array.toList_inj.1 ?_⟩
  · rw [ofText, hd]
    simp only [hg']
  · rw [ht', ht, TypeDeclaration.map_stamped_of_reowned hr]

/-- Whatever texts of the same declarations are loaded, both loads succeed, and the graphs hold the
    same declarations as the graph that is made of the declarations themselves. So they have the
    same fingerprint, and every run over them has the same outcome. -/
theorem ofText_canonical {ts : List TypeDeclaration} {g₀ : TypeGraph}
    (h : ofDeclarations ts = .ok g₀) {s s' : String} (hs : Presents s ts) (hs' : Presents s' ts) :
    ∃ g g', ofText s = .ok g ∧ ofText s' = .ok g' ∧ g.types = g₀.types ∧ g'.types = g.types ∧
      g'.fingerprint = g.fingerprint ∧ ∀ v : Verifier, v.verify g' = v.verify g := by
  obtain ⟨g, hg, ht⟩ := ofText_of_presents h hs
  obtain ⟨g', hg', ht'⟩ := ofText_of_presents h hs'
  have htt : g'.types = g.types := ht'.trans ht.symm
  exact ⟨g, g', hg, hg', ht, htt, fingerprint_eq_of_types htt,
    (WellFormed.ofText hg').verify_eq_of_types (.ofText hg) htt⟩

/-- A type with one field: its printed document, and a text on indented lines with other orders, keys
    of its own, a modifier written twice, an absent line, an owner and metadata. -/
theorem ofText_canonical_point :
    let point : TypeDeclaration :=
      { name := "a.Point", kind := .classKind, modifiers := .ofList [.final], marked := true
        fields := [
          { name := "x", type := .primitive "int", modifiers := .ofList [.privateAccess, .final] }] }
    let x : Json := .table [
      ("owner", .text "a.Point"), ("comment", .sequence [.null]), ("line", .null),
      ("modifiers", .sequence [.text "final", .text "private", .text "final"]),
      ("type", .table [("primitive", .text "int")]), ("name", .text "x")]
    let entry : Json := .table [
      ("annotated_immutable", .boolean true), ("fields", .sequence [x]), ("package", .text "a"),
      ("modifiers", .sequence [.text "final"]), ("kind", .text "class"), ("name", .text "a.Point")]
    let text : Json := .table [
      ("types", .sequence [entry]),
      ("metadata", .table [("host", .integer 7), ("producer", .text "front end")])]
    ∃ g g', ofText ({ types := [point] } : Document).toJson.compact = .ok g ∧
      ofText text.indented = .ok g' ∧ g'.types = g.types ∧ g'.fingerprint = g.fingerprint ∧
      ∀ v : Verifier, v.verify g' = v.verify g := by
  intro point x entry text
  have ha : point.Acceptable := by decide +revert
  obtain ⟨g₀, hg, -⟩ := ofDocument_of_acceptable (d := { types := [point] })
    (List.forall_mem_singleton.2 ha) (List.nodup_singleton _)
  have hs := (({ types := [point] } : Document).presents_toJson (List.forall_mem_singleton.2 ha)).1
  have hx : FieldDeclaration.form x.tree
      { name := "x", type := .primitive "int", modifiers := .ofList [.privateAccess, .final]
        owner := "a.Point" } :=
    Form.record_tree ⟨.written rfl rfl, .written rfl rfl,
      .written rfl ⟨[.final, .privateAccess, .final],
        ⟨_, rfl, .cons rfl <| .cons rfl <| .cons rfl .nil⟩, by decide⟩,
      .omitted rfl rfl, .written rfl rfl, .written rfl rfl⟩
  have ht : TypeDeclaration.form entry.tree point.stamped :=
    Form.record_tree ⟨.written rfl rfl, .written rfl rfl,
      .written rfl ⟨[.final], ⟨_, rfl, .cons rfl .nil⟩, rfl⟩,
      .written rfl ⟨_, rfl, .cons hx .nil⟩, .written rfl rfl, .omitted rfl rfl, .omitted rfl rfl⟩
  have hs' : Presents text.indented [point] :=
    ⟨text.tree, ⟨{ producer := some "front end" }, [point.stamped]⟩, written_indented rfl,
      Form.record_tree ⟨.written rfl (Form.record_tree ⟨.written rfl rfl, .omitted rfl rfl⟩),
        .written rfl ⟨_, rfl, .cons ht .nil⟩⟩,
      .cons ⟨ha.owned_stamped.stamped_eq, ha.owned_stamped.acceptable.unclaimed⟩ .nil⟩
  obtain ⟨g, g', hl, hl', -, h⟩ := ofText_canonical hg hs hs'
  exact ⟨g, g', hl, hl', h⟩

end TypeGraph

end Immutability
