import Immutability.Proofs.Graph.WellFormed

/-! Graphs put together.

    Declarations whose names are free and differ from each other all go in, in their order. So a
    graph takes over every graph with which it shares no name, and a graph can be rebuilt from the
    document that holds its declarations. -/

namespace Immutability.TypeGraph

/-- Acceptable declarations with free and distinct names are all inserted. -/
theorem insertAll_of_free {g : TypeGraph} {ts : List TypeDeclaration}
    (ha : ∀ t ∈ ts, t.Acceptable) (hn : (ts.map (·.name)).Nodup)
    (hf : ∀ t ∈ ts, g.index.contains t.name = false) :
    ∃ g', g.insertAll ts = (g', none) ∧ g'.metadata = g.metadata ∧
      g'.types.toList = g.types.toList ++ ts.map TypeDeclaration.stamped := by
  induction ts generalizing g with
  | nil => exact ⟨g, rfl, rfl, by simp⟩
  | cons t ts ih =>
    obtain ⟨hat, ha⟩ := List.forall_mem_cons.1 ha
    obtain ⟨hft, hf⟩ := List.forall_mem_cons.1 hf
    obtain ⟨hnt, hn⟩ := List.nodup_cons.1 hn
    have hi : g.insert t = .ok (g.push t.stamped) := insert_eq_ok.2 ⟨hft, hat, rfl⟩
    have hf' : ∀ u ∈ ts, (g.push t.stamped).index.contains u.name = false := by
      intro u hu
      have hne : t.name ≠ u.name := fun he => hnt (List.mem_map.2 ⟨u, hu, he.symm⟩)
      simp [push, Std.HashMap.contains_insert, hne, hf u hu]
    obtain ⟨g', hg', hm, ht⟩ := ih ha hn hf'
    refine ⟨g', ?_, hm, ?_⟩
    · rw [insertAll, hi]
      exact hg'
    · rw [ht, toList_types_push, List.map_cons, List.append_assoc, List.singleton_append]

/-- Declarations that have all been inserted were acceptable, and their names free and distinct. -/
theorem free_of_insertAll {g : TypeGraph} {ts : List TypeDeclaration}
    (h : (g.insertAll ts).2 = none) :
    (∀ t ∈ ts, t.Acceptable) ∧ (ts.map (·.name)).Nodup ∧
      ∀ t ∈ ts, g.index.contains t.name = false := by
  induction ts generalizing g with
  | nil => simp
  | cons t ts ih =>
    rw [insertAll] at h
    split at h
    · cases h
    · rename_i g' hi
      obtain ⟨hft, hat, rfl⟩ := insert_eq_ok.1 hi
      obtain ⟨ha, hn, hf⟩ := ih h
      -- a later name is free after `t` has gone in, so it is not the name of `t`
      have hf' : ∀ u ∈ ts, t.name ≠ u.name ∧ g.index.contains u.name = false := by
        intro u hu
        simpa [push, Std.HashMap.contains_insert] using hf u hu
      have hnt : t.name ∉ ts.map (·.name) := by
        rintro hm
        obtain ⟨u, hu, he⟩ := List.mem_map.1 hm
        exact (hf' u hu).1 he.symm
      exact ⟨List.forall_mem_cons.2 ⟨hat, ha⟩, List.nodup_cons.2 ⟨hnt, hn⟩,
        List.forall_mem_cons.2 ⟨hft, fun u hu => (hf' u hu).2⟩⟩

/-- The declarations of a well-formed graph are stamped already. -/
theorem WellFormed.map_stamped {g : TypeGraph} (h : g.WellFormed) :
    g.types.toList.map TypeDeclaration.stamped = g.types.toList :=
  TypeDeclaration.map_stamped_of_owned fun t ht => h.owned t (Array.mem_toList_iff.1 ht)

/-- The declarations of a well-formed graph go into every graph in which their names are free. -/
theorem WellFormed.insertAll_types {g h : TypeGraph} (hh : h.WellFormed)
    (hf : ∀ t ∈ h.types, g.index.contains t.name = false) :
    ∃ g', g.insertAll h.types.toList = (g', none) ∧ g'.metadata = g.metadata ∧
      g'.types.toList = g.types.toList ++ h.types.toList := by
  have := insertAll_of_free (g := g)
    (fun t ht => (hh.owned t (Array.mem_toList_iff.1 ht)).acceptable) hh.names_nodup
    fun t ht => hf t (Array.mem_toList_iff.1 ht)
  rwa [hh.map_stamped] at this

/-- A graph that has been merged completely has added its declarations at the end. -/
theorem WellFormed.toList_types_of_merge {g h m : TypeGraph} (hh : h.WellFormed)
    (hm : g.merge h = (m, none)) : m.types.toList = g.types.toList ++ h.types.toList := by
  obtain ⟨-, -, hf⟩ := free_of_insertAll (congrArg Prod.snd hm)
  obtain ⟨m', hm', -, ht⟩ := hh.insertAll_types fun t ht => hf t (Array.mem_toList_iff.2 ht)
  rw [TypeGraph.merge, hm'] at hm
  cases hm
  exact ht

/-- No type has a name that the other graph declares, too. -/
def Disjoint (g h : TypeGraph) : Prop := ∀ t ∈ g.types, ∀ u ∈ h.types, t.name ≠ u.name

/-- Graphs without a common name are merged completely. -/
theorem WellFormed.merge_of_disjoint {g h : TypeGraph} (hg : g.WellFormed) (hh : h.WellFormed)
    (hd : g.Disjoint h) :
    ∃ m, g.merge h = (m, none) ∧ m.metadata = g.metadata.orElse h.metadata ∧
      m.types.toList = g.types.toList ++ h.types.toList := by
  refine hh.insertAll_types (g := { g with metadata := g.metadata.orElse h.metadata }) ?_
  intro u hu
  rw [← Bool.not_eq_true]
  rintro hc
  obtain ⟨t, ht, hn⟩ := (hg.contains_iff u.name).1 hc
  exact hd t ht u hu hn

/-! ### Documents -/

/-- A document whose declarations are acceptable and have distinct names makes up a graph. -/
theorem ofDocument_of_acceptable {d : Document} (ha : ∀ t ∈ d.types, t.Acceptable)
    (hn : (d.types.map (·.name)).Nodup) :
    ∃ g, ofDocument d = .ok g ∧ g.metadata = d.metadata ∧
      g.types.toList = d.types.map TypeDeclaration.stamped := by
  obtain ⟨g, hi, hm, ht⟩ := insertAll_of_free (g := { empty with metadata := d.metadata }) ha hn
    (fun t _ => by simp [empty])
  refine ⟨g, ?_, hm, ht⟩
  rw [ofDocument]
  simp only [hi]

/-- Declarations that make up a graph were acceptable and had distinct names, and the graph holds
    them stamped. -/
theorem acceptable_of_ofDocument {d : Document} {g : TypeGraph} (h : ofDocument d = .ok g) :
    (∀ t ∈ d.types, t.Acceptable) ∧ (d.types.map (·.name)).Nodup ∧
      g.types.toList = d.types.map TypeDeclaration.stamped := by
  have ⟨ha, hn⟩ : (∀ t ∈ d.types, t.Acceptable) ∧ (d.types.map (·.name)).Nodup := by
    rw [ofDocument] at h
    split at h
    · rename_i hi
      obtain ⟨ha, hn, -⟩ := free_of_insertAll (congrArg Prod.snd hi)
      exact ⟨ha, hn⟩
    · cases h
  obtain ⟨g', hg', -, ht⟩ := ofDocument_of_acceptable ha hn
  rw [h] at hg'
  cases hg'
  exact ⟨ha, hn, ht⟩

theorem toList_types_run_declarations {ts : List TypeDeclaration} (ha : ∀ t ∈ ts, t.Acceptable)
    (hn : (ts.map (·.name)).Nodup) :
    (run [.declarations ts]).types.toList = ts.map TypeDeclaration.stamped := by
  obtain ⟨g, hd, -, ht⟩ := ofDocument_of_acceptable (d := { types := ts }) ha hn
  have hr : run [.declarations ts] = g := by
    simp only [run, Operation.applyAll, Operation.apply, ofDeclarations, hd, Except.toOption,
      Option.getD_some]
  rw [hr, ht]

/-- A well-formed graph is the graph of its document. -/
theorem WellFormed.ofDocument_eq {g : TypeGraph} (h : g.WellFormed) (m : Metadata) :
    ∃ g', TypeGraph.ofDocument ⟨m, g.types.toList⟩ = .ok g' ∧ g'.metadata = m ∧
      g'.types = g.types := by
  obtain ⟨g', hd, hm, ht⟩ := ofDocument_of_acceptable (d := ⟨m, g.types.toList⟩)
    (fun t ht => (h.owned t (Array.mem_toList_iff.1 ht)).acceptable) h.names_nodup
  rw [h.map_stamped] at ht
  exact ⟨g', hd, hm, Array.toList_inj.1 ht⟩

end Immutability.TypeGraph
