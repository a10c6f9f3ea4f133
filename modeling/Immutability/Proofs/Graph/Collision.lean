import Immutability.Proofs.Graph.Union

/-! Merging graphs that share a name.

    A merge takes the declarations of the other graph in their order and stops at the first whose
    name is taken. Since the declarations of a graph fit together already, nothing else can stop
    it. -/

namespace Immutability

namespace TypeGraph

variable {g h : TypeGraph}

/-- A declaration of the graph has the name. -/
def declares (g : TypeGraph) (name : String) : Bool := g.types.any fun t => t.name = name

theorem declares_iff {name : String} : g.declares name = true ↔ ∃ t ∈ g.types, t.name = name := by
  rw [declares, Array.any_eq_true']
  simp

theorem declares_eq_false_iff {name : String} :
    g.declares name = false ↔ ∀ t ∈ g.types, t.name ≠ name := by
  rw [declares, Array.any_eq_false']
  simp

/-- Graphs with the same declarations declare the same names. -/
theorem declares_eq_of_types (ht : g.types = h.types) : g.declares = h.declares := by
  funext name
  rw [declares, declares, ht]

theorem WellFormed.contains_eq (hg : g.WellFormed) (name : String) :
    g.index.contains name = g.declares name := by
  rw [Bool.eq_iff_iff, hg.contains_iff, declares_iff]

/-- Graphs share no name exactly if none of the one is declared by the other. -/
theorem disjoint_iff : g.Disjoint h ↔ ∀ u ∈ h.types, g.declares u.name = false := by
  simp only [declares_eq_false_iff]
  exact ⟨fun hd u hu t ht => hd t ht u hu, fun hf t ht u hu => hf u hu t ht⟩

/-- Graphs share no name exactly if a search for the first shared one finds nothing. -/
theorem disjoint_iff_find? :
    g.Disjoint h ↔ (h.types.toList.find? fun u => g.declares u.name) = none := by
  rw [disjoint_iff, List.find?_eq_none]
  simp

/-! ### Where an insertion stops -/

theorem insertAll_append {g' : TypeGraph} {ts : List TypeDeclaration}
    (h : g.insertAll ts = (g', none)) (us : List TypeDeclaration) :
    g.insertAll (ts ++ us) = g'.insertAll us := by
  induction ts generalizing g with
  | nil => cases h; rfl
  | cons t ts ih =>
    rw [List.cons_append, insertAll]
    rw [insertAll] at h
    cases hi : g.insert t with
    | error e =>
      rw [hi] at h
      cases h
    | ok g₁ =>
      rw [hi] at h
      exact ih h

theorem insertAll_cons_of_taken {t : TypeDeclaration} (ht : g.index.contains t.name = true)
    (ts : List TypeDeclaration) :
    g.insertAll (t :: ts) = (g, some (.duplicateType t.name)) := by
  rw [insertAll, insert, if_pos ht]

/-- If a name of the other graph is taken, the merge stops at the first such declaration, says so,
    and keeps the metadata and the declarations before it. -/
theorem WellFormed.merge_of_taken (hg : g.WellFormed) (hh : h.WellFormed) {t : TypeDeclaration}
    (ht : (h.types.toList.find? fun u => g.declares u.name) = some t) :
    ∃ m, g.merge h = (m, some (.duplicateType t.name)) ∧
      m.metadata = g.metadata.orElse h.metadata ∧
      m.types.toList =
        g.types.toList ++ h.types.toList.takeWhile fun u => !g.declares u.name := by
  obtain ⟨hd, before, after, hs, hb⟩ := List.find?_eq_some_iff_append.1 ht
  have ho : ∀ u ∈ before, u.Owned := by
    intro u hu
    refine hh.owned u ?_
    rw [← Array.mem_toList_iff, hs]
    exact List.mem_append_left _ hu
  have hn : (before.map (·.name)).Nodup := by
    have hn := hh.names_nodup
    rw [hs, List.map_append] at hn
    exact hn.of_append_left
  -- the metadata is joined first, and the index stays that of `g`
  let start : TypeGraph := { g with metadata := g.metadata.orElse h.metadata }
  have hstart : start.WellFormed := hg.withMetadata _
  have hc : ∀ name, start.index.contains name = g.declares name := hg.contains_eq
  obtain ⟨m, hi, hm, hts⟩ := insertAll_of_free (g := start)
    (fun u hu => (ho u hu).acceptable) hn
    (fun u hu => by rw [hc]; simpa using hb u hu)
  have hw : m.WellFormed := by simpa [hi] using hstart.insertAll before
  have htaken : m.index.contains t.name = true := by
    obtain ⟨u, hu, hun⟩ := declares_iff.1 hd
    refine (hw.contains_iff t.name).2 ⟨u, ?_, hun⟩
    rw [← Array.mem_toList_iff, hts]
    exact List.mem_append_left _ (Array.mem_toList_iff.2 hu)
  refine ⟨m, ?_, hm, ?_⟩
  · rw [TypeGraph.merge, hs, insertAll_append hi, insertAll_cons_of_taken htaken]
  · have hkeep : ∀ u ∈ before, (!g.declares u.name) = true := by simpa using hb
    rw [hts, TypeDeclaration.map_stamped_of_owned ho, hs, List.takeWhile_append_of_pos hkeep,
      List.takeWhile_cons_of_neg (by simp [hd]), List.append_nil]

/-! ### Merging new graphs -/

/-- A graph without a common name is taken over. -/
theorem WellFormed.mergeNew_of_disjoint (hg : g.WellFormed) (hh : h.WellFormed)
    (hd : g.Disjoint h) :
    ∃ m, g.mergeNew h = .ok m ∧ m.WellFormed ∧ m.metadata = g.metadata.orElse h.metadata ∧
      m.types.toList = g.types.toList ++ h.types.toList := by
  obtain ⟨m, hm, hmeta, ht⟩ := hg.merge_of_disjoint hh hd
  have hw : m.WellFormed := by simpa [hm] using hg.merge h
  refine ⟨m, ?_, hw, hmeta, ht⟩
  rw [mergeNew, hm]

/-- A graph with a common name is refused for the first such name. -/
theorem WellFormed.mergeNew_of_taken (hg : g.WellFormed) (hh : h.WellFormed) {t : TypeDeclaration}
    (ht : (h.types.toList.find? fun u => g.declares u.name) = some t) :
    g.mergeNew h = .error (.invalid (.duplicateType t.name)) := by
  obtain ⟨m, hm, -⟩ := hg.merge_of_taken hh ht
  rw [mergeNew, hm]

/-- What has been taken over had no common name. -/
theorem WellFormed.disjoint_of_mergeNew (hg : g.WellFormed) (hh : h.WellFormed) {m : TypeGraph}
    (hm : g.mergeNew h = .ok m) : g.Disjoint h := by
  rw [disjoint_iff_find?]
  cases ht : h.types.toList.find? fun u => g.declares u.name with
  | none => rfl
  | some t =>
    rw [hg.mergeNew_of_taken hh ht] at hm
    cases hm

end TypeGraph

end Immutability
