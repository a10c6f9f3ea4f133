import Immutability.Classification
import Immutability.Proofs.Graph.WellFormed

/-! When nothing speaks for the type of a field.

    In a well-formed graph the look-up of a name finds the declaration of that name wherever it
    stands, so whether a field is invalid is a matter of what the graph declares, and not of how it
    is indexed. -/

namespace Immutability

/-- The graph speaks for the types of this name: it declares one that is marked or an enumeration. -/
def TypeGraph.vouches (g : TypeGraph) (name : String) : Bool :=
  g.types.any fun t => t.name = name && (t.marked || t.kind = .enumKind)

theorem TypeGraph.vouches_iff {g : TypeGraph} {name : String} :
    g.vouches name = true ↔
      ∃ t ∈ g.types, t.name = name ∧ (t.marked = true ∨ t.kind = .enumKind) := by
  rw [vouches, Array.any_eq_true']
  simp

theorem TypeDeclaration.classOf?_eq_none {t : TypeDeclaration} :
    t.classOf? = none ↔ ¬ (t.marked = true ∨ t.kind = .enumKind) := by
  unfold classOf?
  split
  · simp [*]
  · split <;> simp [*]

/-- The class that a declaration gives a field is never the invalid one. -/
theorem TypeDeclaration.classOf?_ne_invalid {t : TypeDeclaration} {name : String} :
    t.classOf? ≠ some (.invalid name) := by
  unfold classOf?
  split
  · simp
  · split <;> simp

/-- A field is invalid by the name of its own type. -/
theorem type_of_classify_eq_invalid {g : TypeGraph} {r : Registry} {f : FieldDeclaration}
    {name : String} (h : classify g r f = .invalid name) : f.type = .named name := by
  unfold classify at h
  split at h
  · cases h
  · split at h
    · cases h
    · split at h
      · rename_i hc
        obtain ⟨t, -, ht⟩ := Option.bind_eq_some_iff.1 (h ▸ hc)
        exact absurd ht TypeDeclaration.classOf?_ne_invalid
      · split at h
        · cases h
        · cases h
          assumption

namespace TypeGraph.WellFormed

variable {g : TypeGraph}

/-- What a name resolves to speaks for it exactly if the graph does. -/
theorem bind_classOf?_eq_none (h : g.WellFormed) (name : String) :
    (g.get? name).bind TypeDeclaration.classOf? = none ↔ g.vouches name = false := by
  rw [Option.bind_eq_none_iff, ← Bool.not_eq_true, vouches_iff]
  constructor
  · rintro hn ⟨t, ht, hname, hv⟩
    exact TypeDeclaration.classOf?_eq_none.1 (hn t (h.get?_eq_some_iff.2 ⟨ht, hname⟩)) hv
  · intro hn t ht
    obtain ⟨hm, hname⟩ := h.get?_eq_some_iff.1 ht
    exact TypeDeclaration.classOf?_eq_none.2 fun hv => hn ⟨t, hm, hname, hv⟩

/-- A field is invalid exactly if its type is named and neither the registry, nor the graph, nor a
    marker on the field speaks for it. -/
theorem classify_eq_invalid (h : g.WellFormed) (r : Registry) (f : FieldDeclaration)
    (name : String) :
    classify g r f = .invalid name ↔
      f.marked = false ∧ f.type = .named name ∧ r.contains name = false ∧
        g.vouches name = false := by
  unfold classify
  cases hf : f.type with
  | primitive s => simp
  | named s =>
    simp only [resolve?, TypeRef.named.injEq]
    cases hr : r.contains s with
    | true =>
      simp only [if_true]
      constructor
      · rintro ⟨⟩
      · rintro ⟨-, rfl, hr', -⟩
        rw [hr] at hr'
        cases hr'
    | false =>
      simp only [Bool.false_eq_true, if_false]
      have hv := h.bind_classOf?_eq_none s
      cases hb : (g.get? s).bind TypeDeclaration.classOf? with
      | some c =>
        rw [hb] at hv
        constructor
        · rintro rfl
          obtain ⟨t, -, ht⟩ := Option.bind_eq_some_iff.1 hb
          exact absurd ht TypeDeclaration.classOf?_ne_invalid
        · rintro ⟨-, rfl, -, hn⟩
          cases hv.2 hn
      | none =>
        rw [hb] at hv
        cases hm : f.marked with
        | true => simp
        | false =>
          simp only [Bool.false_eq_true, if_false, FieldClass.invalid.injEq, true_and]
          constructor
          · rintro rfl
            exact ⟨rfl, hr, hv.1 rfl⟩
          · rintro ⟨rfl, -, -⟩
            rfl

end TypeGraph.WellFormed

end Immutability
