import Immutability.Proofs.Classification

/-! Graphs in which one more type carries the marker.

    The marker changes neither names nor places, so the index stays as it is and a name stands for
    the same declaration, marked or not. The graph speaks for one more name. -/

namespace Immutability

namespace TypeDeclaration

/-- The type, with the marker if it has the given name. -/
def markIf (name : String) (t : TypeDeclaration) : TypeDeclaration :=
  if t.name = name then t.mark else t

@[simp] theorem name_markIf (name : String) (t : TypeDeclaration) :
    (t.markIf name).name = t.name := by
  unfold markIf
  split <;> rfl

@[simp] theorem kind_markIf (name : String) (t : TypeDeclaration) :
    (t.markIf name).kind = t.kind := by
  unfold markIf
  split <;> rfl

@[simp] theorem fields_markIf (name : String) (t : TypeDeclaration) :
    (t.markIf name).fields = t.fields := by
  unfold markIf
  split <;> rfl

theorem marked_markIf (name : String) (t : TypeDeclaration) :
    (t.markIf name).marked = (decide (t.name = name) || t.marked) := by
  unfold markIf
  split <;> simp [mark, *]

end TypeDeclaration

namespace TypeGraph

/-- The graph in which the type of a name carries the marker. -/
def marking (g : TypeGraph) (name : String) : TypeGraph :=
  { g with types := g.types.map (TypeDeclaration.markIf name) }

variable {g : TypeGraph} {t : TypeDeclaration}

theorem get?_marking (g : TypeGraph) (name n : String) :
    (g.marking name).get? n = (g.get? n).map (TypeDeclaration.markIf name) := by
  simp only [get?, marking, Array.getElem?_map, Option.map_bind, Function.comp_def]

/-- Exactly the type of the name is replaced, at its place. -/
theorem WellFormed.toList_types_marking (hg : g.WellFormed) {before after : List TypeDeclaration}
    (ht : g.types.toList = before ++ t :: after) :
    (g.marking t.name).types.toList = before ++ t.mark :: after := by
  have hne : ∀ u ∈ before ++ after, u.markIf t.name = u := by
    intro u hu
    exact if_neg (hg.name_ne_of_around ht u hu)
  have hb : before.map (TypeDeclaration.markIf t.name) = before :=
    map_eq_self fun u hu => hne u (List.mem_append_left _ hu)
  have ha : after.map (TypeDeclaration.markIf t.name) = after :=
    map_eq_self fun u hu => hne u (List.mem_append_right _ hu)
  rw [marking, Array.toList_map, ht, List.map_append, List.map_cons, hb, ha,
    TypeDeclaration.markIf, if_pos rfl]

/-- Marking a type keeps a graph well formed. -/
theorem WellFormed.marking (hg : g.WellFormed) (name : String) : (g.marking name).WellFormed := by
  refine ⟨?_, ?_⟩
  · intro n i
    rw [TypeGraph.marking, hg.index_iff]
    simp only [Array.getElem?_map, Option.map_eq_some_iff]
    constructor
    · rintro ⟨t, ht, hn⟩
      exact ⟨_, ⟨t, ht, rfl⟩, by rw [TypeDeclaration.name_markIf, hn]⟩
    · rintro ⟨-, ⟨t, ht, rfl⟩, hn⟩
      exact ⟨t, ht, by rwa [TypeDeclaration.name_markIf] at hn⟩
  · intro u hu
    obtain ⟨t, ht, rfl⟩ := Array.mem_map.1 hu
    refine ⟨?_, ?_⟩
    · rw [TypeDeclaration.fields_markIf]
      exact (hg.owned t ht).distinct
    · rw [TypeDeclaration.fields_markIf, TypeDeclaration.name_markIf]
      exact (hg.owned t ht).owner_eq

/-- The graph speaks for the marked type, and else for what it spoke for before. -/
theorem vouches_marking (ht : t ∈ g.types) (name : String) :
    (g.marking t.name).vouches name = (g.vouches name || decide (name = t.name)) := by
  rw [Bool.eq_iff_iff, Bool.or_eq_true, vouches_iff, vouches_iff, decide_eq_true_iff]
  simp only [marking, Array.mem_map]
  constructor
  · rintro ⟨-, ⟨u, hu, rfl⟩, hn, hs⟩
    rw [TypeDeclaration.name_markIf] at hn
    rw [TypeDeclaration.marked_markIf, TypeDeclaration.kind_markIf, Bool.or_eq_true,
      decide_eq_true_iff, or_assoc] at hs
    rcases hs with hs | hs
    · exact Or.inr (hn.symm.trans hs)
    · exact Or.inl ⟨u, hu, hn, hs⟩
  · rintro (⟨u, hu, hn, hs⟩ | rfl)
    · refine ⟨_, ⟨u, hu, rfl⟩, ?_, ?_⟩
      · rw [TypeDeclaration.name_markIf, hn]
      · rw [TypeDeclaration.marked_markIf, TypeDeclaration.kind_markIf, Bool.or_eq_true, or_assoc]
        exact Or.inr hs
    · refine ⟨_, ⟨t, ht, rfl⟩, TypeDeclaration.name_markIf .., ?_⟩
      rw [TypeDeclaration.marked_markIf]
      simp

/-! ### How fields are classified -/

/-- Fields of the marked type are trusted for its marker, unless its name is registered. -/
theorem WellFormed.classify_marking (hg : g.WellFormed) (ht : t ∈ g.types) (r : Registry)
    {f : FieldDeclaration} (hf : f.type = .named t.name) :
    classify (g.marking t.name) r f =
      if r.contains t.name then .knownImmutable else .markedType := by
  have hget : (g.marking t.name).get? t.name = some t.mark := by
    rw [get?_marking, hg.get?_eq_some_iff.2 ⟨ht, rfl⟩, Option.map_some, TypeDeclaration.markIf,
      if_pos rfl]
  simp only [classify, hf, resolve?, hget, Option.bind_some, TypeDeclaration.classOf?,
    TypeDeclaration.mark, if_true]

/-- Fields of other types are classified as before. -/
theorem WellFormed.classify_marking_of_ne (hg : g.WellFormed) (name : String) (r : Registry)
    {f : FieldDeclaration} (hf : f.type ≠ .named name) :
    classify (g.marking name) r f = classify g r f := by
  cases ht : f.type with
  | primitive s => simp [classify, ht]
  | named s =>
    have hs : s ≠ name := fun he => hf (by rw [ht, he])
    have hget : (g.marking name).get? s = g.get? s := by
      rw [get?_marking]
      cases hu : g.get? s with
      | none => rfl
      | some u =>
        have hn : u.name ≠ name := (hg.get?_eq_some_iff.1 hu).2 ▸ hs
        rw [Option.map_some, TypeDeclaration.markIf, if_neg hn]
    simp only [classify, ht, resolve?, hget]

end TypeGraph

end Immutability
