import Immutability.Proofs.Graph.Refusal

/-! Going on after a merge.

    A merge that fails keeps what it has taken over until then. The graph it leaves is like any
    other with the same declarations: whatever is inserted or merged next, graphs with the same
    declarations go the same way and fail in the same cases (`apply_types_eq`), whatever has been done
    to them before. -/

namespace Immutability

namespace TypeGraph

/-! ### Where a merge stops -/

/-- The type is the first of the other graph whose name is taken, and these are the types before
    it. -/
structure StopsAt (g h : TypeGraph) (before : List TypeDeclaration) (t : TypeDeclaration) : Prop where
  listed : ∃ after, h.types.toList = before ++ t :: after
  free : ∀ u ∈ before, g.declares u.name = false
  taken : g.declares t.name = true

variable {g h : TypeGraph}

theorem stopsAt_iff {before : List TypeDeclaration} {t : TypeDeclaration} :
    g.StopsAt h before t ↔ (h.types.toList.find? fun u => g.declares u.name) = some t ∧
      (h.types.toList.takeWhile fun u => !g.declares u.name) = before := by
  constructor
  · rintro ⟨⟨after, hs⟩, hb, ht⟩
    have hkeep : ∀ u ∈ before, (!g.declares u.name) = true := by simpa using hb
    refine ⟨List.find?_eq_some_iff_append.2 ⟨ht, before, after, hs, hkeep⟩, ?_⟩
    rw [hs, List.takeWhile_append_of_pos hkeep, List.takeWhile_cons_of_neg (by simp [ht]),
      List.append_nil]
  · rintro ⟨hf, rfl⟩
    obtain ⟨ht, before, after, hs, hb⟩ := List.find?_eq_some_iff_append.1 hf
    rw [hs, List.takeWhile_append_of_pos hb, List.takeWhile_cons_of_neg (by simp [ht]),
      List.append_nil]
    exact ⟨⟨after, hs⟩, by simpa using hb, ht⟩

/-- Graphs share no name, or there is a first type whose name is taken. -/
theorem disjoint_or_stopsAt (g h : TypeGraph) :
    g.Disjoint h ∨ ∃ before t, g.StopsAt h before t := by
  rw [disjoint_iff_find?]
  cases hf : h.types.toList.find? fun u => g.declares u.name with
  | none => exact Or.inl rfl
  | some t => exact Or.inr ⟨_, t, stopsAt_iff.2 ⟨hf, rfl⟩⟩

/-- Declarations do not change the metadata, whether they go in or not. -/
theorem metadata_insertAll (g : TypeGraph) (ts : List TypeDeclaration) :
    (g.insertAll ts).1.metadata = g.metadata := by
  induction ts generalizing g with
  | nil => rfl
  | cons t ts ih =>
    rw [insertAll]
    split
    · rfl
    · rename_i g' hi
      obtain ⟨-, -, rfl⟩ := insert_eq_ok.1 hi
      exact ih (g.push t.stamped)

theorem metadata_merge (g h : TypeGraph) :
    (g.merge h).1.metadata = g.metadata.orElse h.metadata :=
  metadata_insertAll { g with metadata := g.metadata.orElse h.metadata } h.types.toList

namespace WellFormed

variable (hg : g.WellFormed) (hh : h.WellFormed)

include hg hh

theorem merge_complete (hd : g.Disjoint h) :
    (g.merge h).2 = none ∧ (g.merge h).1.types.toList = g.types.toList ++ h.types.toList := by
  obtain ⟨m, hm, -, ht⟩ := hg.merge_of_disjoint hh hd
  rw [hm]
  exact ⟨rfl, ht⟩

theorem merge_stopped {before : List TypeDeclaration} {t : TypeDeclaration}
    (hs : g.StopsAt h before t) :
    (g.merge h).2 = some (.duplicateType t.name) ∧
      (g.merge h).1.types.toList = g.types.toList ++ before := by
  obtain ⟨hf, hb⟩ := stopsAt_iff.1 hs
  obtain ⟨m, hm, -, ht⟩ := hg.merge_of_taken hh hf
  rw [hb] at ht
  rw [hm]
  exact ⟨rfl, ht⟩

/-- A merge succeeds exactly if the graphs share no name. -/
theorem merge_eq_none_iff : (g.merge h).2 = none ↔ g.Disjoint h := by
  constructor
  · intro hn
    rcases disjoint_or_stopsAt g h with hd | ⟨before, t, hs⟩
    · exact hd
    · rw [(hg.merge_stopped hh hs).1] at hn
      cases hn
  · intro hd
    exact (hg.merge_complete hh hd).1

/-- A merge fails exactly with the name of the type at which it stops. -/
theorem merge_eq_some_iff {e : GraphError} :
    (g.merge h).2 = some e ↔ ∃ before t, g.StopsAt h before t ∧ e = .duplicateType t.name := by
  constructor
  · intro he
    rcases disjoint_or_stopsAt g h with hd | ⟨before, t, hs⟩
    · rw [(hg.merge_complete hh hd).1] at he
      cases he
    · rw [(hg.merge_stopped hh hs).1] at he
      exact ⟨before, t, hs, (Option.some.inj he).symm⟩
  · rintro ⟨before, t, hs, rfl⟩
    exact (hg.merge_stopped hh hs).1

end WellFormed

/-! ### Graphs with the same declarations -/

/-- Graphs with the same declarations refuse and take over the same declarations. -/
theorem WellFormed.insert_types_eq (hg : g.WellFormed) (hh : h.WellFormed)
    (ht : g.types = h.types) (t : TypeDeclaration) :
    (g.insert t).map (·.types) = (h.insert t).map (·.types) := by
  rw [TypeGraph.insert, TypeGraph.insert, hg.contains_eq, hh.contains_eq,
    declares_eq_of_types ht]
  split
  · rfl
  · cases stampFields t.name [] t.fields with
    | error e => rfl
    | ok fields => simp [Except.map, ht]

/-- Graphs with the same declarations stop at the same declaration of a row. -/
theorem WellFormed.insertAll_types_eq (hg : g.WellFormed) (hh : h.WellFormed)
    (ht : g.types = h.types) (ts : List TypeDeclaration) :
    (g.insertAll ts).2 = (h.insertAll ts).2 ∧
      (g.insertAll ts).1.types = (h.insertAll ts).1.types := by
  induction ts generalizing g h with
  | nil => exact ⟨rfl, ht⟩
  | cons t ts ih =>
    have hi := hg.insert_types_eq hh ht t
    rw [TypeGraph.insertAll, TypeGraph.insertAll]
    cases hgt : g.insert t with
    | error e =>
      rw [hgt] at hi
      cases hht : h.insert t with
      | error e' =>
        rw [hht] at hi
        cases hi
        exact ⟨rfl, ht⟩
      | ok h' =>
        rw [hht] at hi
        cases hi
    | ok g' =>
      rw [hgt] at hi
      cases hht : h.insert t with
      | error e' =>
        rw [hht] at hi
        cases hi
      | ok h' =>
        rw [hht] at hi
        exact ih (hg.insert hgt) (hh.insert hht) (Except.ok.inj hi)

/-- Graphs with the same declarations take over the same part of another graph. -/
theorem WellFormed.merge_types_eq (hg : g.WellFormed) (hh : h.WellFormed)
    (ht : g.types = h.types) (other : TypeGraph) :
    (g.merge other).2 = (h.merge other).2 ∧
      (g.merge other).1.types = (h.merge other).1.types :=
  (hg.withMetadata (g.metadata.orElse other.metadata)).insertAll_types_eq
    (hh.withMetadata (h.metadata.orElse other.metadata)) ht other.types.toList

/-- What takes the place of graphs with the same declarations, or leaves them there. -/
theorem types_getD_eq {ε : Type} (ht : g.types = h.types) {r r' : Except ε TypeGraph}
    (hr : r.map (·.types) = r'.map (·.types)) :
    (r.toOption.getD g).types = (r'.toOption.getD h).types := by
  cases r with
  | error e =>
    cases r' with
    | error e' => exact ht
    | ok k' => cases hr
  | ok k =>
    cases r' with
    | error e' => cases hr
    | ok k' => exact Except.ok.inj hr

/-- After one operation, graphs with the same declarations have the same declarations again. -/
theorem WellFormed.apply_types_eq (hg : g.WellFormed) (hh : h.WellFormed)
    (ht : g.types = h.types) (op : Operation) : (op.apply g).types = (op.apply h).types := by
  cases op with
  | renew => rfl
  | load text => exact types_getD_eq ht rfl
  | document d => exact types_getD_eq ht rfl
  | declarations ts => exact types_getD_eq ht rfl
  | insert t => exact types_getD_eq ht (hg.insert_types_eq hh ht t)
  | merge history => exact (hg.merge_types_eq hh ht _).2

/-- Whatever is done next, graphs with the same declarations have the same declarations again. -/
theorem WellFormed.applyAll_types_eq (hg : g.WellFormed) (hh : h.WellFormed)
    (ht : g.types = h.types) (ops : List Operation) :
    (Operation.applyAll g ops).types = (Operation.applyAll h ops).types := by
  induction ops generalizing g h with
  | nil => exact ht
  | cons op ops ih => exact ih (hg.apply op) (hh.apply op) (hg.apply_types_eq hh ht op)

/-! ### Merges -/

/-- Take two graphs, each with a history of its own, and merge the second into the first. This fails
    exactly if they share a name, and then with the first type of the second graph whose name is taken.
    In either case each metadata entry is the first one that is present. The declarations are those of
    the first graph and then those of the second, all of them or, if the merge fails, those before the
    type at which it stops. Looking a name up is searching this list for it, and every graph with the
    same declarations goes on in the same way: it refuses and takes over the same declarations in an
    insertion or a merge, and has the same declarations after any operations. -/
theorem run_merge (a b : List Operation) :
    let g := run a
    let h := run b
    let m := run (a ++ [.merge b])
    m = (g.merge h).1 ∧
    -- whether it fails
    ((g.merge h).2 = none ↔ g.Disjoint h) ∧
    (∀ e, (g.merge h).2 = some e ↔ ∃ before t, g.StopsAt h before t ∧ e = .duplicateType t.name) ∧
    -- what it leaves
    m.metadata.producer = g.metadata.producer.or h.metadata.producer ∧
    m.metadata.generatedAt = g.metadata.generatedAt.or h.metadata.generatedAt ∧
    (g.Disjoint h → m.types.toList = g.types.toList ++ h.types.toList) ∧
    (∀ before t, g.StopsAt h before t → m.types.toList = g.types.toList ++ before) ∧
    (∀ name, m.get? name = m.types.toList.find? fun t => t.name = name) ∧
    -- how it goes on
    ∀ c, (run c).types = m.types →
      (∀ t, (m.insert t).map (·.types) = ((run c).insert t).map (·.types)) ∧
      (∀ d, (m.merge (run d)).2 = ((run c).merge (run d)).2) ∧
      ∀ ops, (run (a ++ .merge b :: ops)).types = (run (c ++ ops)).types := by
  intro g h m
  have hg : g.WellFormed := wellFormed_run a
  have hh : h.WellFormed := wellFormed_run b
  have hw : m.WellFormed := wellFormed_run _
  have hm : m = (g.merge h).1 := run_append a [.merge b]
  have hmeta : m.metadata = g.metadata.orElse h.metadata := hm ▸ metadata_merge g h
  refine ⟨hm, hg.merge_eq_none_iff hh, fun e => hg.merge_eq_some_iff hh, ?_, ?_, ?_, ?_,
    hw.get?_eq_find?, ?_⟩
  · rw [hmeta]
    rfl
  · rw [hmeta]
    rfl
  · intro hd
    rw [hm]
    exact (hg.merge_complete hh hd).2
  · intro before t hs
    rw [hm]
    exact (hg.merge_stopped hh hs).2
  · intro c hc
    have hk : (run c).WellFormed := wellFormed_run c
    refine ⟨hw.insert_types_eq hk hc.symm, fun d => (hw.merge_types_eq hk hc.symm _).1, ?_⟩
    intro ops
    have ho : run (a ++ .merge b :: ops) = Operation.applyAll m ops := by
      rw [← List.singleton_append, ← List.append_assoc, run_append]
    rw [ho, run_append]
    exact hw.applyAll_types_eq hk hc.symm ops

/-- A merge that stops at the second of three types, after which the third one is inserted by itself. -/
theorem run_merge_resumed :
    let point : TypeDeclaration := { name := "a.Point", kind := .classKind }
    let line : TypeDeclaration := { name := "a.Line", kind := .classKind }
    let shape : TypeDeclaration := { name := "a.Shape", kind := .interfaceKind }
    let a := [Operation.declarations [point]]
    let b := [Operation.declarations [line, point, shape]]
    ((run a).merge (run b)).2 = some (.duplicateType "a.Point") ∧
      (run (a ++ [.merge b])).types.toList = [point, line] ∧
      (run (a ++ [.merge b, .insert shape])).types =
        (run [.declarations [point, line], .insert shape]).types := by
  intro point line shape a b
  have ha : (run a).types.toList = [point] :=
    toList_types_run_declarations (by decide) (by decide)
  have hb : (run b).types.toList = [line, point, shape] :=
    toList_types_run_declarations (by decide) (by decide)
  have hc : (run [.declarations [point, line]]).types.toList = [point, line] :=
    toList_types_run_declarations (by decide) (by decide)
  have hs : (run a).StopsAt (run b) [line] point := by
    refine ⟨⟨[shape], hb⟩, ?_, ?_⟩
    · simp [declares, ← Array.any_toList, ha, point, line]
    · simp [declares, ← Array.any_toList, ha]
  obtain ⟨-, -, he, -, -, -, ht, -, hnext⟩ := run_merge a b
  have hm := ht _ _ hs
  rw [ha, List.singleton_append] at hm
  obtain ⟨-, -, hops⟩ := hnext [.declarations [point, line]] (Array.toList_inj.1 (hc.trans hm.symm))
  exact ⟨(he _).2 ⟨[line], point, hs, rfl⟩, hm, hops [.insert shape]⟩

end TypeGraph

end Immutability
