import Immutability.Proofs.Verification.Settling

/-! Verifying with more registered types.

    However further names come into the registry, one by one, all at once or through the
    configuration, they settle the invalid types of these names and do nothing else. The registry is
    asked before the graph and before the marker of a field, but a name that it pre-empts was trusted
    already or is settled now, so no field loses its trust. -/

namespace Immutability

/-- The verifiers differ in that the second one knows some more names, which have been registered one
    by one, all at once, or among the known types of the configuration that the registry comes
    from, at any places there. -/
inductive Verifier.Registers (names : List String) : Verifier → Verifier → Prop
  | oneByOne (v : Verifier) :
    Registers names v { v with registry := names.foldl (fun r id => (r.register id).2) v.registry }
  | atOnce (v : Verifier) : Registers names v { v with registry := v.registry.extend names }
  | configured (v : Verifier) (c : Config) (known : List String) (hc : v.registry = c.registry)
    (hk : ∀ id, id ∈ known ↔ id ∈ c.knownImmutable ∨ id ∈ names) :
    Registers names v { v with registry := { c with knownImmutable := known }.registry }

namespace Verifier.Registers

variable {names : List String} {v v' : Verifier}

theorem contains_eq (h : Registers names v v') (id : String) :
    v'.registry.contains id = (v.registry.contains id || decide (id ∈ names)) := by
  cases h with
  | oneByOne => exact (Registry.contains_extend ..).trans (Bool.or_comm ..)
  | atOnce => rw [Registry.contains_extend, Bool.or_comm]
  | configured c known hc hk =>
    simp only [hc, Config.registry, Registry.contains_extend, hk, Bool.decide_or]
    ac_rfl

theorem severities_eq (h : Registers names v v') : v'.severities = v.severities := by
  cases h <;> rfl

theorem skipTypes_eq (h : Registers names v v') : v'.skipTypes = v.skipTypes := by
  cases h <;> rfl

theorem settles (h : Registers names v v') {g : TypeGraph} (hg : g.WellFormed) :
    Settles (fun id => decide (id ∈ names)) g v.registry g v'.registry :=
  hg.settles_of_spoken hg fun id => by
    rw [h.contains_eq, Bool.or_right_comm]

end Verifier.Registers

/-- After every history of a graph, a verifier that knows some more names reports what it reported
    before, in the same order and unchanged, less the invalid types of these names. So it never
    reports anything new. Its counts and the names it skips stay the same, and fields of primitive
    types are what they were, even if their type has one of the names. -/
theorem verify_registered (history : List Operation) (names : List String) {v v' : Verifier}
    (h : v.Registers names v') :
    let g := TypeGraph.run history
    (v'.verify g).diagnostics = ((v.verify g).diagnostics.filter fun d =>
      !(d.rule = .fieldInvalidType && d.actual.any fun id => decide (id ∈ names))) ∧
    (v'.verify g).diagnostics.Sublist (v.verify g).diagnostics ∧
    (v'.verify g).elementsChecked = (v.verify g).elementsChecked ∧
    (v'.verify g).classesVerified = (v.verify g).classesVerified ∧
    (v'.verify g).fieldsClassified = (v.verify g).fieldsClassified ∧
    (v'.verify g).skipped = (v.verify g).skipped ∧
    ∀ f : FieldDeclaration, f.type.isPrimitive = true →
      v'.classify g f = .primitive ∧ v.classify g f = .primitive := by
  intro g
  have hs := h.settles (TypeGraph.wellFormed_run history)
  have hd := Verifier.total_diagnostics_settled hs h.severities_eq h.skipTypes_eq g.markedElements
  have ht := Verifier.total_eq_of_skipTypes h.skipTypes_eq g g g.markedElements
  rw [v.verify_eq_total, v'.verify_eq_total]
  refine ⟨hd, ?_, ?_, ?_, ?_, ?_, ?_⟩
  · rw [hd]
    exact List.filter_sublist
  · rw [ht]
  · rw [ht]
  · rw [ht]
  · rw [ht]
  · intro f hf
    cases ht : f.type with
    | primitive s => simp [Verifier.classify, classify, ht]
    | named s => simp [ht, TypeRef.isPrimitive] at hf

/-- A point that becomes known through the configuration, beside a primitive type of its name. -/
theorem verify_registered_point :
    let holder : TypeDeclaration :=
      { name := "a.Holder", kind := .classKind, marked := true
        fields := [
          { name := "point", type := .named "b.Point" },
          { name := "shape", type := .named "b.Shape" },
          { name := "bits", type := .primitive "b.Point" }] }
    let g := TypeGraph.run [.declarations [holder]]
    let v := Verifier.ofConfig .default
    let v' := Verifier.ofConfig { Config.default with knownImmutable := ["b.Point"] }
    v.Registers ["b.Point"] v' ∧
      (v'.verify g).diagnostics = ((v.verify g).diagnostics.filter fun d =>
        !(d.rule = .fieldInvalidType && d.actual.any fun id => decide (id ∈ ["b.Point"]))) ∧
      v'.classify g { name := "bits", type := .primitive "b.Point" } = .primitive := by
  intro holder g v v'
  have hr : v.Registers ["b.Point"] v' :=
    .configured v .default ["b.Point"] rfl (by simp [Config.default])
  obtain ⟨hd, -, -, -, -, -, hp⟩ := verify_registered [.declarations [holder]] ["b.Point"] hr
  exact ⟨hr, hd, (hp _ rfl).1⟩

end Immutability
