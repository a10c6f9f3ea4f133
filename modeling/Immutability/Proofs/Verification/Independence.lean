import Immutability.Proofs.Verification.Repair

/-! Violations are independent of each other.

    A graph with a repaired type speaks for the same names as before, so the other types break what
    they broke before, and the repaired type loses the one violation that the repair is about. What
    is counted and skipped changes only if a field gets the marker. -/

namespace Immutability

namespace TypeGraph

variable {g g' : TypeGraph} {t u : TypeDeclaration} {before after : List TypeDeclaration}

/-- A type can be put in the place of another one of the same name. -/
theorem WellFormed.exists_history_replacing (hg : g.WellFormed)
    (ht : g.types.toList = before ++ t :: after) (hn : u.name = t.name) (hu : u.Owned) :
    ∃ history, (run history).types.toList = before ++ u :: after := by
  have ho : ∀ w ∈ before ++ u :: after, w.Owned := by
    intro w hw
    rcases List.mem_append.1 hw with hw | hw
    · exact hg.owned w (Array.mem_toList_iff.1 (ht ▸ List.mem_append_left _ hw))
    · rcases List.mem_cons.1 hw with rfl | hw
      · exact hu
      · have hw : w ∈ before ++ t :: after :=
          List.mem_append_right _ (List.mem_cons_of_mem _ hw)
        exact hg.owned w (Array.mem_toList_iff.1 (ht ▸ hw))
  have hd : ((before ++ u :: after).map (·.name)).Nodup := by
    have h := hg.names_nodup
    rw [ht] at h
    simpa only [List.map_append, List.map_cons, hn] using h
  refine ⟨[.declarations (before ++ u :: after)], ?_⟩
  rw [toList_types_run_declarations (fun w hw => (ho w hw).acceptable) hd,
    TypeDeclaration.map_stamped_of_owned ho]

/-- The graph speaks for the same names if the type that takes the place does so. -/
theorem vouches_replacing (ht : g.types.toList = before ++ t :: after)
    (hu : g'.types.toList = before ++ u :: after) (hn : u.name = t.name)
    (hm : u.marked = t.marked) (hk : u.kind = t.kind) : g'.vouches = g.vouches := by
  funext name
  rw [vouches, vouches, ← Array.any_toList, ← Array.any_toList, ht, hu]
  simp only [List.any_append, List.any_cons, hn, hm, hk]

end TypeGraph

/-! ### Violations of a run -/

/-- In a well-formed graph a run reports one violation about one thing. -/
theorem Verifier.eq_of_subject_eq {g : TypeGraph} (h : g.WellFormed) {v : Verifier}
    {x y : Violation} (hx : x ∈ v.violations g) (hy : y ∈ v.violations g)
    (he : x.subject = y.subject) : x = y := by
  obtain ⟨hxt, -, hxh⟩ := (mem_violations h).1 hx
  obtain ⟨hyt, -, hyh⟩ := (mem_violations h).1 hy
  exact Violation.eq_of_subject_eq h hxt hyt hxh hyh he

theorem Verifier.subjects_nodup {g : TypeGraph} (h : g.WellFormed) (v : Verifier) :
    ((v.violations g).map (·.subject)).Nodup := by
  refine List.Nodup.map_on ?_ ((violations_increasing h v).imp fun hlt he => ?_)
  · intro x hx y hy he
    exact Verifier.eq_of_subject_eq h hx hy he
  · exact absurd hlt (he ▸ lt_irrefl _)

namespace Repair

variable {t : TypeDeclaration} (r : Repair t) {g g' : TypeGraph}
  {before after : List TypeDeclaration} (v : Verifier)

theorem violationsIn_result (hg : g.WellFormed) :
    v.violationsIn g r.result = r.rest (v.violationsIn g t) := by
  have hc : v.checks r.result = v.checks t := rfl
  rw [Verifier.violationsIn, Verifier.violationsIn, hc, r.typeViolations_result hg]
  split <;> rfl

/-- The run over the repaired graph finds what is left of the violations of the repaired type, and
    those of the other types. -/
theorem violations_repaired (hg : g.WellFormed) (hg' : g'.WellFormed)
    (ht : g.types.toList = before ++ t :: after)
    (ht' : g'.types.toList = before ++ r.result :: after) :
    v.violations g' = before.flatMap (v.violationsIn g) ++ r.rest (v.violationsIn g t) ++
      after.flatMap (v.violationsIn g) := by
  have hv : g'.vouches = g.vouches := TypeGraph.vouches_replacing ht ht' rfl rfl rfl
  have hi : v.violationsIn g' = v.violationsIn g := by
    funext u
    rw [Verifier.violationsIn, Verifier.violationsIn, hg.typeViolations_eq_of_vouches hg' hv]
  rw [v.violations_around ht', hi, r.violationsIn_result v hg]

/-- The violations of other types are not about what is repaired. -/
theorem subject_ne_of_around (hg : g.WellFormed) (ht : g.types.toList = before ++ t :: after)
    {us : List TypeDeclaration} (hu : us ⊆ before ++ after) :
    ∀ x ∈ us.flatMap (v.violationsIn g), x.subject ≠ r.subject := by
  have ht' : r.subject.type = t.name := by cases r <;> rfl
  intro x hx he
  obtain ⟨u, hm, hx⟩ := List.mem_flatMap.1 hx
  refine hg.name_ne_of_around ht u (hu hm) ?_
  rw [← Verifier.owner_of_mem_violationsIn hx, ← ht', ← he]
  rfl

theorem filter_subjects_around (hg : g.WellFormed) (ht : g.types.toList = before ++ t :: after)
    {us : List TypeDeclaration} (hu : us ⊆ before ++ after) :
    ((us.flatMap (v.violationsIn g)).map (·.subject)).filter (· != r.subject) =
      (us.flatMap (v.violationsIn g)).map (·.subject) := by
  refine List.filter_eq_self.2 ?_
  intro s hs
  obtain ⟨x, hx, rfl⟩ := List.mem_map.1 hs
  exact bne_iff_ne.2 (r.subject_ne_of_around v hg ht hu x hx)

/-- The subjects of the violations that are left are those before, less the one that is repaired. -/
theorem subjects_repaired (hg : g.WellFormed) (hg' : g'.WellFormed)
    (ht : g.types.toList = before ++ t :: after)
    (ht' : g'.types.toList = before ++ r.result :: after) :
    (v.violations g').map (·.subject) = ((v.violations g).map (·.subject)).erase r.subject := by
  rw [(v.subjects_nodup hg).erase_eq_filter, r.violations_repaired v hg hg' ht ht',
    v.violations_around ht]
  simp only [List.map_append, List.filter_append]
  rw [r.map_subject_rest fun x hx => Verifier.owner_of_mem_violationsIn hx,
    r.filter_subjects_around v hg ht (List.subset_append_left _ _),
    r.filter_subjects_around v hg ht (List.subset_append_right _ _)]

/-- A violation that is left says what the one about the same thing said before, except for the
    modifiers of the repaired field. -/
theorem evidence_repaired (hg : g.WellFormed) (hg' : g'.WellFormed)
    (ht : g.types.toList = before ++ t :: after)
    (ht' : g'.types.toList = before ++ r.result :: after) {x y : Violation}
    (hx : x ∈ v.violations g) (hy : y ∈ v.violations g') (he : y.subject = x.subject)
    (s : Severities) :
    y.diagnose s = { x.diagnose s with actual := some y.actual } ∧
      (y.actual = x.actual ∨ x.owner = t ∧ x.subject.field = r.subject.field ∧
        (x.rule = .fieldNotFinal ∨ x.rule = .fieldNotPrivate)) := by
  have hmem : y ∈ v.violations g ∨ y ∈ r.rest (v.violationsIn g t) := by
    rw [r.violations_repaired v hg hg' ht ht'] at hy
    rw [v.violations_around ht]
    simp only [List.mem_append] at hy ⊢
    tauto
  rcases hmem with hm | hm
  · rw [Verifier.eq_of_subject_eq hg hm hx he]
    exact ⟨rfl, Or.inl rfl⟩
  · obtain ⟨x', hx', rfl⟩ := List.mem_map.1 hm
    obtain ⟨hx', hs⟩ := List.mem_filter.1 hx'
    have ho : x'.owner = t := Verifier.owner_of_mem_violationsIn hx'
    -- it is about the same as the one it comes from, which is therefore `x`
    have hxx : x' = x := by
      refine Verifier.eq_of_subject_eq hg ?_ hx ((r.subject_revised ho).symm.trans he)
      rw [v.violations_around ht]
      exact List.mem_append_left _ (List.mem_append_right _ hx')
    subst hxx
    refine ⟨r.diagnose_revised ho s, ?_⟩
    exact (r.actual_revised ho (bne_iff_ne.1 hs)).imp_right fun h => ⟨ho, h⟩

/-! ### What is counted and skipped -/

theorem elementsChecked_repaired (hg : g.WellFormed) (ht : g.types.toList = before ++ t :: after)
    (ht' : g'.types.toList = before ++ r.result :: after) :
    (v.verify g').elementsChecked = (v.verify g).elementsChecked + r.newlyMarked.toList.length := by
  obtain ⟨xs, ys, h, h'⟩ := r.names_result (hg.owned_of_around ht).distinct
  refine v.elementsChecked_replacing ht ht' _ ?_
  rw [← List.length_map Element.name, ← List.length_map Element.name, h, h']
  simp only [List.length_append, List.length_map]
  omega

theorem skipped_repaired (hg : g.WellFormed) (ht : g.types.toList = before ++ t :: after)
    (ht' : g'.types.toList = before ++ r.result :: after) :
    ∃ xs ys, (v.verify g).skipped = xs ++ ys ∧ (v.verify g').skipped =
      xs ++ (if v.skips t.name then r.newlyMarked.toList.map (·.qualifiedName) else []) ++ ys := by
  have hr : v.skips r.result.name = v.skips t.name := rfl
  obtain ⟨xs, ys, h, h'⟩ := r.names_result (hg.owned_of_around ht).distinct
  rw [v.verify_skipped_around ht, v.verify_skipped_around ht', Verifier.skippedIn,
    Verifier.skippedIn, hr]
  cases v.skips t.name with
  | true =>
    refine ⟨before.flatMap v.skippedIn ++ xs, ys ++ after.flatMap v.skippedIn, ?_, ?_⟩
    · simp [h]
    · simp [h']
  | false =>
    refine ⟨before.flatMap v.skippedIn, after.flatMap v.skippedIn, ?_, ?_⟩
    · simp
    · simp

end Repair

/-- Put one thing right in a type of a graph with any history; the graph with the type put right has
    a history, too. Then the run over it reports the same things in the same order, except for the
    one that has been put right, if it was reported. What is reported still keeps its diagnostic, up
    to the modifiers of the repaired field that are given as evidence. The counts and what is skipped
    stay as they are, unless a field without the marker gets it: then one more element is checked,
    and if the type is skipped, the name of the field is noted. -/
theorem verify_repair (history : List Operation) (v : Verifier) {t : TypeDeclaration}
    {before after : List TypeDeclaration}
    (ht : (TypeGraph.run history).types.toList = before ++ t :: after) (r : Repair t) :
    (∃ history', (TypeGraph.run history').types.toList = before ++ r.result :: after) ∧
    ∀ history', (TypeGraph.run history').types.toList = before ++ r.result :: after →
      let g := TypeGraph.run history
      let g' := TypeGraph.run history'
      -- violations
      (v.verify g).diagnostics = (v.violations g).map (·.diagnose v.severities) ∧
      (v.verify g').diagnostics = (v.violations g').map (·.diagnose v.severities) ∧
      ((v.violations g).map (·.subject)).Nodup ∧
      (v.violations g').map (·.subject) = ((v.violations g).map (·.subject)).erase r.subject ∧
      -- evidence
      (∀ x ∈ v.violations g, ∀ y ∈ v.violations g', y.subject = x.subject →
        y.diagnose v.severities = { x.diagnose v.severities with actual := some y.actual } ∧
        (y.actual = x.actual ∨ x.owner = t ∧ x.subject.field = r.subject.field ∧
          (x.rule = .fieldNotFinal ∨ x.rule = .fieldNotPrivate))) ∧
      -- counts
      (v.verify g').elementsChecked =
        (v.verify g).elementsChecked + r.newlyMarked.toList.length ∧
      (v.verify g').classesVerified = (v.verify g).classesVerified ∧
      (v.verify g').fieldsClassified = (v.verify g).fieldsClassified ∧
      -- what is skipped
      ∃ xs ys, (v.verify g).skipped = xs ++ ys ∧ (v.verify g').skipped = xs ++
        (if skipped v.skipTypes t.name then r.newlyMarked.toList.map (·.qualifiedName) else []) ++
        ys := by
  have hg : (TypeGraph.run history).WellFormed := TypeGraph.wellFormed_run history
  refine ⟨hg.exists_history_replacing ht rfl (r.owned_result (hg.owned_of_around ht)), ?_⟩
  intro history' ht' g g'
  have hg' : g'.WellFormed := TypeGraph.wellFormed_run history'
  refine ⟨v.verify_diagnostics_eq_map g, v.verify_diagnostics_eq_map g', v.subjects_nodup hg,
    r.subjects_repaired v hg hg' ht ht', ?_, r.elementsChecked_repaired v hg ht ht', ?_, ?_,
    r.skipped_repaired v hg ht ht'⟩
  · intro x hx y hy he
    exact r.evidence_repaired v hg hg' ht ht' hx hy he v.severities
  · exact v.classesVerified_replacing ht ht' rfl
  · exact v.fieldsClassified_replacing ht ht' rfl (List.length_map _)

/-- A class that breaks three rules. When its field has been made final, two of them are left. -/
theorem verify_repair_point :
    let x : FieldDeclaration := { name := "x", type := .primitive "int", owner := "a.Point" }
    let point : TypeDeclaration :=
      { name := "a.Point", kind := .classKind, marked := true, fields := [x] }
    let g := TypeGraph.run [.declarations [point]]
    let v : Verifier := ⟨.empty, .empty, []⟩
    let r : Repair point := .field x List.mem_cons_self .makeFinal
    g.types.toList = [] ++ point :: [] ∧
      (v.violations g).map (·.subject) = [⟨"a.Point", none, .notFinal⟩,
        ⟨"a.Point", some "x", .fieldNotFinal⟩, ⟨"a.Point", some "x", .fieldNotPrivate⟩] ∧
      ∃ history', (TypeGraph.run history').types.toList = [r.result] ∧
        (v.violations (TypeGraph.run history')).map (·.subject) =
          [⟨"a.Point", none, .notFinal⟩, ⟨"a.Point", some "x", .fieldNotPrivate⟩] := by
  intro x point g v r
  have ha : point.Acceptable := by decide +revert
  have hg : g.types.toList = [] ++ point :: [] :=
    TypeGraph.toList_types_run_declarations (by simpa using ha) (by simp [point])
  have hx : (v.violations g).map (·.subject) = [⟨"a.Point", none, .notFinal⟩,
      ⟨"a.Point", some "x", .fieldNotFinal⟩, ⟨"a.Point", some "x", .fieldNotPrivate⟩] := by
    rw [v.violations_around hg]
    rfl
  obtain ⟨⟨history', ht⟩, h⟩ := verify_repair [.declarations [point]] v hg r
  obtain ⟨-, -, -, hs, -⟩ := h history' ht
  refine ⟨hg, hx, history', ht, ?_⟩
  rw [hs, hx]
  rfl

end Immutability
