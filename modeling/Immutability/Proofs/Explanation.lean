import Immutability.Proofs.Explanation.Page
import Immutability.Proofs.Report.Counts
import Immutability.Proofs.Verification.Skipping

/-! Explaining a type and checking its graph agree.

    A run reports what belongs to one type at one place (`Verifier.Reports`), and an explanation shows
    the same diagnostics: it asks for them element by element, without looking at the types to skip.
    It classifies the fields a second time, and a field of a marked class is labelled as invalid
    exactly if the type is reported for it. -/

namespace Immutability

/-! ### What a run reports of one type -/

namespace Verifier

/-- In a run the type has these diagnostics, all at one place, and no others are about it. -/
def Reports (v : Verifier) (g : TypeGraph) (t : TypeDeclaration) (ds : List Diagnostic) : Prop :=
  (v.verify g).diagnostics = (v.violations g).map (·.diagnose v.severities) ∧
  ∃ xs ys zs, v.violations g = xs ++ ys ++ zs ∧ ys.map (·.diagnose v.severities) = ds ∧
    (∀ y ∈ ys, y.owner = t) ∧ ∀ x ∈ xs ++ zs, x.owner ≠ t

variable (v : Verifier) {g : TypeGraph} {t : TypeDeclaration} {before after : List TypeDeclaration}

theorem reports_block (h : g.WellFormed) (ht : g.types.toList = before ++ t :: after) :
    v.Reports g t (v.block g t) := by
  exact ⟨v.verify_diagnostics_eq_map g, _, _, _, v.violations_around ht,
    (v.block_eq_map g t).symm, fun y hy => owner_of_mem_violationsIn hy,
    v.owner_ne_of_around h ht⟩

/-- A type that is not left out has the diagnostics that it has if no type is left out. -/
theorem reports_of_kept (h : g.WellFormed) (ht : g.types.toList = before ++ t :: after)
    (hs : v.skips t.name = false) : v.Reports g t (v.thorough.block g t) := by
  have hb : v.block g t = v.thorough.block g t := by
    rw [block_eq_map, violationsIn_eq, hs]
    exact (v.thorough.block_eq_map g t).symm
  rw [← hb]
  exact v.reports_block h ht

/-- A type that is left out has no diagnostics. -/
theorem reports_of_skipped (h : g.WellFormed) (ht : g.types.toList = before ++ t :: after)
    (hs : v.skips t.name = true) : v.Reports g t [] := by
  have hb : v.block g t = [] := by
    rw [block_eq_map, violationsIn_eq, hs]
    rfl
  rw [← hb]
  exact v.reports_block h ht

theorem block_thorough (v : Verifier) (g : TypeGraph) (t : TypeDeclaration) :
    v.thorough.block g t = v.told g t := by
  have hc : v.thorough.checks t = (t.marked && true) := rfl
  rw [block, hc, Bool.and_true]
  rfl

end Verifier

/-! ### Invalid fields -/

/-- A field of a class is invalid exactly if the class is reported for it. -/
theorem Verifier.classify_eq_invalid_iff (v : Verifier) {g : TypeGraph} (h : g.WellFormed)
    {t : TypeDeclaration} (ht : t ∈ g.types) (hk : t.kind = .classKind) {f : FieldDeclaration}
    (hf : f ∈ t.fields) (name : String) :
    v.classify g f = .invalid name ↔ ∃ d ∈ v.verifyElement g (.type t),
      d.rule = .fieldInvalidType ∧ d.location = some (Violation.fieldLocation t f) ∧
        d.actual = some name := by
  rw [classify, h.classify_eq_invalid]
  constructor
  · rintro ⟨hm, hty, hr, hv⟩
    refine ⟨_, List.mem_map.2 ⟨.fieldInvalidType t f name, ?_, rfl⟩, rfl, rfl, rfl⟩
    exact (mem_typeViolations h).2 ⟨rfl, hk, hf, hm, hty, hr, hv⟩
  · rintro ⟨d, hd, hrule, hloc, hact⟩
    obtain ⟨x, hx, rfl⟩ := List.mem_map.1 hd
    obtain ⟨ho, hx⟩ := (mem_typeViolations h).1 hx
    cases x with
    | fieldInvalidType t' f' name' =>
      obtain ⟨hk', hf', hh⟩ := hx
      have ho : t = t' := ho.symm
      subst ho
      -- the place tells the name of the field, and the name the field
      have hel : t.name ++ "." ++ f'.name = t.name ++ "." ++ f.name :=
        congrArg Location.element (Option.some.inj hloc)
      rw [String.append_right_inj] at hel
      obtain rfl := List.inj_on_of_nodup_map (h.owned t ht).distinct hf' hf hel
      obtain rfl := Option.some.inj hact
      exact hh
    | _ => cases hrule

/-- Take a type of a graph with any history. After its declaration its page shows each of its fields
    with the label of its class, and, if it is marked, each of its diagnostics with severity, code and
    message, in order; if there are none, it shows instead that the type satisfies the rules, and only
    then. A page on the type from another configuration or another graph is the same exactly if the
    fields are classified alike and there are the same diagnostics, which do not depend on the types to
    skip. In the run of a check these are all that the type has, and they stand at one place; if the
    type is skipped, the run has none of it, but it would have these if no type were skipped. Of a
    marked class a field is labelled as invalid exactly if there is a diagnostic that says so of the
    field and names the same type. -/
theorem explain_agrees (history : List Operation) (c : Config) (color : Bool) {t : TypeDeclaration}
    {before after : List TypeDeclaration}
    (ht : (TypeGraph.run history).types.toList = before ++ t :: after) :
    let g := TypeGraph.run history
    let v := Verifier.ofConfig c
    ∃ (label : FieldDeclaration → String) (fields ending : String),
      -- what is printed
      explain color c g t = explainDeclaration color t ++ fields ++ ending ++
        "\n" ++ ruler color ++ "\n" ∧
      FieldsText color label t.fields fields ∧
      (∀ f ∈ t.fields, ∃ look word, (v.classify g f).Shown look word ∧
        label f = styled color look word) ∧
      EndingText color t.marked (v.told g t) ending ∧
      (ending = "\n" ++ styled color .boldGreen "✓ Satisfies the immutability rules" ++ "\n" ↔
        t.marked = true ∧ v.told g t = []) ∧
      -- what a page tells
      (∀ c' g', explain color c g t = explain color c' g' t ↔
        (∀ f ∈ t.fields, v.classify g f = (Verifier.ofConfig c').classify g' f) ∧
          v.told g t = (Verifier.ofConfig c').told g' t) ∧
      explain color { c with skipTypes := [] } g t = explain color c g t ∧
      -- what a check reports
      (∀ now, (runReport now g (v.verify g)).diagnostics = (v.verify g).diagnostics) ∧
      (skipped c.skipTypes t.name = false → v.Reports g t (v.told g t)) ∧
      (skipped c.skipTypes t.name = true → v.Reports g t []) ∧
      (Verifier.ofConfig { c with skipTypes := [] }).Reports g t (v.told g t) ∧
      -- labels
      (t.marked = true → t.kind = .classKind → ∀ f ∈ t.fields, ∀ name,
        label f = styled color .boldRed ("invalid (" ++ name ++ ")") ↔
          ∃ d ∈ v.told g t, d.rule = .fieldInvalidType ∧
            d.location = some (Violation.fieldLocation t f) ∧ d.actual = some name) := by
  intro g v
  have h : g.WellFormed := TypeGraph.wellFormed_run history
  have hd : v.thorough.block g t = v.told g t := v.block_thorough g t
  have hending : EndingText color t.marked (v.told g t) (explainVerdict color v g t) :=
    endingText_explainVerdict t
  refine ⟨fun f => (v.classify g f).shown color, explainFields color v g t,
    explainVerdict color v g t, rfl, fieldsText_explainFields t,
    fun f _ => (v.classify g f).exists_shown color, hending, hending.satisfied_iff,
    fun c' g' => explain_eq_iff color c c' g g' t, rfl, fun now => diagnostics_runReport now g _,
    ?_, ?_, ?_, ?_⟩
  · intro hs
    exact hd ▸ v.reports_of_kept h ht hs
  · intro hs
    exact v.reports_of_skipped h ht hs
  · exact hd ▸ v.thorough.reports_block h ht
  · intro hm hk f hf name
    have hd : v.told g t = v.verifyElement g (.type t) := if_pos hm
    rw [FieldClass.shown_eq_invalid_iff, hd]
    exact v.classify_eq_invalid_iff h (TypeGraph.mem_of_around ht) hk hf name

/-- A skipped class that is not final, with a field that keeps the rules and one whose type nothing
    speaks for. -/
theorem explain_agrees_point :
    let x : FieldDeclaration :=
      { name := "x", type := .primitive "int", owner := "a.Point"
        modifiers := .ofList [.final, .privateAccess] }
    let bag : FieldDeclaration := { x with name := "bag", type := .named "a.Bag" }
    let point : TypeDeclaration :=
      { name := "a.Point", kind := .classKind, marked := true, fields := [x, bag] }
    let g := TypeGraph.run [.declarations [point]]
    let c : Config :=
      { useDefaultRegistry := false, skipTypes := ["a.Point"]
        severities := .ofList [(Rule.notFinal.code, .warn)] }
    let ds := [(Violation.notFinal point).diagnose c.severities,
      (Violation.fieldInvalidType point bag "a.Bag").diagnose c.severities]
    g.types.toList = [] ++ point :: [] ∧
      explain false c g point =
        "\n============================================================\n" ++
        "Type: a.Point\n" ++
        "============================================================\n\n" ++
        "Kind: class\n" ++
        "Modifiers: \n" ++
        "Annotated @Immutable: yes\n\n" ++
        "Fields:\n" ++
        "  private final int x: primitive\n" ++
        "  private final a.Bag bag: invalid (a.Bag)\n\n" ++
        "Diagnostics:\n" ++
        "  [WARN] IMMUTABLE_NOT_FINAL: a.Point is annotated as @Immutable but is not marked as final\n" ++
        "  [ERROR] IMMUTABLE_FIELD_INVALID_TYPE: " ++
          (Violation.fieldInvalidType point bag "a.Bag").message ++ "\n" ++
        "\n============================================================\n" ∧
      (Verifier.ofConfig c).Reports g point [] ∧
      (Verifier.ofConfig { c with skipTypes := [] }).Reports g point ds := by
  intro x bag point g c ds
  have ha : point.Acceptable := by decide +revert
  have hg : g.types.toList = [] ++ point :: [] :=
    TypeGraph.toList_types_run_declarations (by simpa using ha) (by simp [point])
  obtain ⟨label, fields, ending, hp, hfields, hlabels, hending, -, -, -, -, -, hs, hr, hinvalid⟩ :=
    explain_agrees [.declarations [point]] c false hg
  -- nothing speaks for the type of the second field
  have hv : g.vouches "a.Bag" = false := by
    rw [TypeGraph.vouches, ← Array.any_toList, hg]
    rfl
  have hbag : (Verifier.ofConfig c).classify g bag = .invalid "a.Bag" :=
    ((TypeGraph.wellFormed_run _).classify_eq_invalid _ bag _).2 ⟨rfl, rfl, rfl, hv⟩
  have hd : (Verifier.ofConfig c).told g point = ds := by
    have ht : typeViolations g (Verifier.ofConfig c).registry point = .notFinal point ::
        ([] ++ (fieldViolations g (Verifier.ofConfig c).registry point bag ++ [])) := rfl
    rw [fieldViolations, show classify g (Verifier.ofConfig c).registry bag = _ from hbag] at ht
    rw [Verifier.told, if_pos rfl, Verifier.verifyElement, elementViolations, ht]
    rfl
  have hx : label x = "primitive" := by
    obtain ⟨look, word, hw, hl⟩ := hlabels x (.head _)
    cases hw
    exact hl
  have hb : label bag = "invalid (a.Bag)" := by
    refine (hinvalid rfl rfl bag (.tail _ (.head _)) "a.Bag").2 ?_
    rw [hd]
    exact ⟨_, .tail _ (.head _), rfl, rfl, rfl⟩
  refine ⟨hg, ?_, hs rfl, hd ▸ hr⟩
  -- what the parts of the page show leaves one text for each
  have hending : EndingText false true [_, _] ending := hd ▸ hending
  have hfields : FieldsText false label [x, bag] fields := hfields
  rcases hending with _ | _ | ⟨_ | ⟨⟨⟩, _ | ⟨⟨⟩, ⟨⟩⟩⟩⟩
  rcases hfields with _ | ⟨_ | ⟨_ | ⟨⟨⟩⟩⟩⟩
  rw [hp, hx, hb]
  decide +kernel +zetaReduce

end Immutability
