import Immutability.Proofs.DottedName
import Immutability.Proofs.Verification.Repair

/-! The diagnostics of one element.

    Diagnostics are selected by the parts of the path that they point at. The path of a violation is the
    name of its type and, if it is about a field, the name of the field after a dot. So a type has all
    its diagnostics selected, and a field those about it; a name of a field that holds a dot can look
    like a path into another field. -/

namespace Immutability

/-! ### Paths of violations -/

namespace Violation

/-- The parts of the path of a violation after those of its type. -/
def fieldSegments (x : Violation) : List String := (x.field?.map (segments ·.name)).getD []

theorem segments_location (x : Violation) :
    segments x.location.element = segments x.owner.name ++ x.fieldSegments := by
  cases x with
  | wrongKind t => exact (List.append_nil _).symm
  | notFinal t => exact (List.append_nil _).symm
  | fieldNotFinal t f => exact segments_append_dot_append t.name f.name
  | fieldNotPrivate t f => exact segments_append_dot_append t.name f.name
  | fieldInvalidType t f name => exact segments_append_dot_append t.name f.name

/-- The violation is about something that the path names, or that lies within it. -/
def within (path : String) (x : Violation) : Bool := isWithin path x.location.element

theorem within_owner (x : Violation) : x.within x.owner.name = true := by
  rw [within, isWithin_iff, segments_location]
  exact List.prefix_append _ _

/-- Within the path of a field of its type are the violations whose paths go on with its name. -/
theorem within_field_iff {x : Violation} {f : FieldDeclaration} :
    x.within (x.owner.name ++ "." ++ f.name) = true ↔ segments f.name <+: x.fieldSegments := by
  rw [within, isWithin_iff, segments_location, segments_append_dot_append,
    List.prefix_append_right_inj]

theorem within_field {x : Violation} {f : FieldDeclaration} (hf : x.field? = some f) :
    x.within (x.owner.name ++ "." ++ f.name) = true := by
  rw [within_field_iff, fieldSegments, hf]
  exact List.prefix_refl _

/-- A violation that holds is about a field of its type, if it is about a field. -/
theorem Holds.mem_fields {g : TypeGraph} {r : Registry} {x : Violation} (hx : x.Holds g r)
    {f : FieldDeclaration} (hf : x.field? = some f) : f ∈ x.owner.fields := by
  cases x with
  | wrongKind t => cases hf
  | notFinal t => cases hf
  | fieldNotFinal t f' =>
    cases hf
    exact hx.2.1
  | fieldNotPrivate t f' =>
    cases hf
    exact hx.2.1
  | fieldInvalidType t f' name =>
    cases hf
    exact hx.2.1

/-- If no field of the type has a dot in its name, the violations that hold and lie within the
    path of a field are those about the field. -/
theorem field?_of_within {g : TypeGraph} {r : Registry} {x : Violation} {f : FieldDeclaration}
    (hx : x.Holds g r) (ho : x.owner.Owned) (hf : f ∈ x.owner.fields)
    (hdot : ∀ f' ∈ x.owner.fields, '.' ∉ f'.name.toList)
    (hw : x.within (x.owner.name ++ "." ++ f.name) = true) : x.field? = some f := by
  rw [within_field_iff, segments_of_notMem (hdot f hf), fieldSegments] at hw
  cases hx' : x.field? with
  | none =>
    rw [hx'] at hw
    cases List.prefix_nil.1 hw
  | some f' =>
    have hf' := hx.mem_fields hx'
    rw [hx', Option.map_some, Option.getD_some, segments_of_notMem (hdot f' hf')] at hw
    obtain ⟨hn, -⟩ := List.cons_prefix_cons.1 hw
    rw [List.inj_on_of_nodup_map ho.distinct hf hf' hn]

end Violation

/-! ### Selected diagnostics -/

/-- The diagnostics of a path are those at a place whose parts begin with those of the path. -/
theorem Verification.diagnosticsFor_eq (o : Verification) (path : String) :
    o.diagnosticsFor path = o.diagnostics.filter fun d =>
      d.location.any fun l => (segments path).isPrefixOf (segments l.element) := by
  have hw : isWithin path = fun element => (segments path).isPrefixOf (segments element) := by
    funext element
    rw [Bool.eq_iff_iff, isWithin_iff, List.isPrefixOf_iff_prefix]
  rw [diagnosticsFor, hw]

namespace Verifier

variable (v : Verifier) (g : TypeGraph)

/-- A path selects the diagnostics of the violations within it. -/
theorem diagnosticsFor_verify (path : String) :
    (v.verify g).diagnosticsFor path =
      ((v.violations g).filter (·.within path)).map (·.diagnose v.severities) := by
  rw [Verification.diagnosticsFor, v.verify_diagnostics_eq_map, List.filter_map]
  rfl

theorem diagnose_mem_diagnosticsFor {x : Violation} (hx : x ∈ v.violations g) {path : String} :
    x.diagnose v.severities ∈ (v.verify g).diagnosticsFor path ↔ x.within path = true := by
  rw [Verification.diagnosticsFor, List.mem_filter, v.verify_diagnostics_eq_map]
  exact ⟨fun h => h.2, fun h => ⟨List.mem_map_of_mem hx, h⟩⟩

/-- Violations that are all within a path are selected by it, in their order. -/
theorem sublist_diagnosticsFor {p : Violation → Bool} {path : String}
    (hp : ∀ x, p x = true → x.within path = true) :
    (((v.violations g).filter p).map (·.diagnose v.severities)).Sublist
      ((v.verify g).diagnosticsFor path) := by
  rw [diagnosticsFor_verify]
  exact (List.monotone_filter_right _ hp).map _

variable {g}

/-- The violations of a type that are found are those that a run over the graph reports of it. -/
theorem filter_owner_violations (h : g.WellFormed) {t : TypeDeclaration} (ht : t ∈ g.types) :
    (v.violations g).filter (·.owner = t) = v.violationsIn g t := by
  obtain ⟨before, after, ht⟩ := List.append_of_mem (Array.mem_toList_iff.2 ht)
  have hne := v.owner_ne_of_around h ht
  have hown : (v.violationsIn g t).filter (·.owner = t) = v.violationsIn g t :=
    List.filter_eq_self.2 fun x hx => decide_eq_true (owner_of_mem_violationsIn hx)
  have hnil : ∀ xs ⊆ before.flatMap (v.violationsIn g) ++ after.flatMap (v.violationsIn g),
      xs.filter (·.owner = t) = [] := by
    intro xs hxs
    refine List.filter_eq_nil_iff.2 ?_
    intro x hx
    simpa using hne x (hxs hx)
  rw [v.violations_around ht, List.filter_append, List.filter_append, hown,
    hnil _ (List.subset_append_left _ _), hnil _ (List.subset_append_right _ _), List.nil_append,
    List.append_nil]

end Verifier

/-- The diagnostics of a path are, in the order of the run, those at a place whose parts between dots
    begin with the parts of the path. After every history of a graph, take a type that is marked and
    not skipped. Its name selects all its diagnostics. The path of a field selects those about the
    field, and no others of the type if the names of its fields have no dots in them. -/
theorem verify_diagnosticsFor (history : List Operation) (v : Verifier) :
    let g := TypeGraph.run history
    let o := v.verify g
    (∀ (run : Verification) (path : String), run.diagnosticsFor path =
      run.diagnostics.filter fun d => d.location.any fun l =>
        (segments path).isPrefixOf (segments l.element)) ∧
    o.diagnostics = (v.violations g).map (·.diagnose v.severities) ∧
    ∀ t ∈ g.types, t.marked = true → skipped v.skipTypes t.name = false →
      let own := (v.violations g).filter (·.owner = t)
      v.verifyElement g (.type t) = own.map (·.diagnose v.severities) ∧
      -- its name
      (own.map (·.diagnose v.severities)).Sublist (o.diagnosticsFor t.name) ∧
      -- the paths of its fields
      ∀ f ∈ t.fields,
        ((own.filter (·.field? = some f)).map (·.diagnose v.severities)).Sublist
          (o.diagnosticsFor (t.name ++ "." ++ f.name)) ∧
        ((∀ f' ∈ t.fields, '.' ∉ f'.name.toList) → ∀ x ∈ own,
          (x.diagnose v.severities ∈ o.diagnosticsFor (t.name ++ "." ++ f.name) ↔
            x.field? = some f)) := by
  intro g o
  have h : g.WellFormed := TypeGraph.wellFormed_run history
  refine ⟨Verification.diagnosticsFor_eq, v.verify_diagnostics_eq_map g, ?_⟩
  intro t ht hm hs own
  have hown : ∀ x ∈ own, x ∈ v.violations g ∧ x.owner = t := by
    intro x hx
    simpa using List.mem_filter.1 hx
  refine ⟨?_, ?_, fun f hf => ⟨?_, ?_⟩⟩
  · have hc : v.checks t = true := by simp [Verifier.checks, Verifier.skips, hm, hs]
    have ho : own = v.violationsIn g t := v.filter_owner_violations h ht
    rw [ho, Verifier.violationsIn, if_pos hc]
    rfl
  · refine v.sublist_diagnosticsFor g ?_
    intro x hx
    rw [← of_decide_eq_true hx]
    exact x.within_owner
  · rw [List.filter_filter]
    refine v.sublist_diagnosticsFor g ?_
    intro x hx
    obtain ⟨hx, ho⟩ := Bool.and_eq_true_iff.1 hx
    rw [← of_decide_eq_true ho]
    exact Violation.within_field (of_decide_eq_true hx)
  · intro hdot x hx
    obtain ⟨hxv, rfl⟩ := hown x hx
    rw [v.diagnose_mem_diagnosticsFor g hxv]
    have hx := ((mem_violations h).1 hxv).2.2
    exact ⟨Violation.field?_of_within hx (h.owned _ ht) hf hdot, Violation.within_field⟩

/-- `a.Pair` selects what is reported about `a.Pair` and nothing about `a.PairBuilder`, and
    `a.Pair.left` what is reported about the field. -/
theorem verify_diagnosticsFor_pair :
    let left : FieldDeclaration := { name := "left", type := .primitive "int", owner := "a.Pair" }
    let pair : TypeDeclaration :=
      { name := "a.Pair", kind := .classKind, marked := true, fields := [left] }
    let builder : TypeDeclaration := { name := "a.PairBuilder", kind := .classKind, marked := true }
    let v : Verifier := { registry := .empty }
    let o := v.verify (TypeGraph.run [.declarations [pair, builder]])
    let d := (Violation.notFinal pair).diagnose .empty
    let e := (Violation.fieldNotFinal pair left).diagnose .empty
    let d' := (Violation.notFinal builder).diagnose .empty
    (d ∈ o.diagnosticsFor "a.Pair" ∧ e ∈ o.diagnosticsFor "a.Pair" ∧
      d' ∉ o.diagnosticsFor "a.Pair") ∧
    e ∈ o.diagnosticsFor "a.Pair.left" ∧ d ∉ o.diagnosticsFor "a.Pair.left" := by
  intro left pair builder v o d e d'
  have hg : (TypeGraph.run [.declarations [pair, builder]]).types.toList = [pair, builder] :=
    TypeGraph.toList_types_run_declarations (by decide) (by decide)
  have hp : pair ∈ (TypeGraph.run [.declarations [pair, builder]]).types := by
    rw [← Array.mem_toList_iff, hg]
    exact List.mem_cons_self
  have hmem : ∀ x : Violation, x.owner = pair →
      x.Holds (TypeGraph.run [.declarations [pair, builder]]) .empty →
      x ∈ (v.violations (TypeGraph.run [.declarations [pair, builder]])).filter
        (·.owner = pair) := by
    intro x ho hx
    refine List.mem_filter.2 ⟨(mem_violations (TypeGraph.wellFormed_run _)).2 ?_, decide_eq_true ho⟩
    rw [ho]
    exact ⟨hp, rfl, hx⟩
  have hd := hmem (.notFinal pair) rfl ⟨rfl, rfl⟩
  have he := hmem (.fieldNotFinal pair left) rfl ⟨rfl, List.mem_singleton_self _, rfl⟩
  obtain ⟨hsel, -, hown⟩ := verify_diagnosticsFor [.declarations [pair, builder]] v
  obtain ⟨-, hname, hfield⟩ := hown pair hp rfl rfl
  obtain ⟨-, hleft⟩ := hfield left (List.mem_singleton_self _)
  have hdot : ∀ f ∈ pair.fields, '.' ∉ f.name.toList := by decide
  refine ⟨⟨hname.subset (List.mem_map_of_mem hd), hname.subset (List.mem_map_of_mem he), ?_⟩,
    (hleft hdot _ he).2 rfl, ?_⟩
  · rw [hsel, List.mem_filter]
    rintro ⟨-, hb⟩
    revert hb
    decide
  · intro hm
    cases (hleft hdot _ hd).1 hm

end Immutability
