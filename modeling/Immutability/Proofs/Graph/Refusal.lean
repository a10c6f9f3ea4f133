import Immutability.Proofs.Graph.Collision

/-! What an insertion refuses, and why.

    A declaration is judged before the graph is touched: first its name, then its fields one after the
    other. The first fault decides on the error, so of two faults in one declaration only the earlier
    one is told, and a field that repeats a name is not asked for its owner. A refused declaration
    leaves nothing behind, which is said of the single writes of an insertion, too
    (`insertInPlace`). -/

namespace Immutability

/-! ### Faults of fields -/

/-- What is wrong with a field of a type if fields with the names of `earlier` stand before it. -/
inductive FieldDeclaration.Fault (owner : String) (earlier : List String) (f : FieldDeclaration) :
    GraphError → Prop
  | repeated (hn : f.name ∈ earlier) : f.Fault owner earlier (.duplicateField owner f.name)
  | foreign (hn : f.name ∉ earlier) (ho : ¬ (f.owner = "" ∨ f.owner = owner)) :
    f.Fault owner earlier (.ownerMismatch f.name f.owner owner)

/-- In which order the earlier names stand does not matter. -/
theorem FieldDeclaration.Fault.congr {owner : String} {earlier earlier' : List String}
    {f : FieldDeclaration} {e : GraphError} (h : f.Fault owner earlier e)
    (hs : f.name ∈ earlier ↔ f.name ∈ earlier') : f.Fault owner earlier' e := by
  cases h with
  | repeated hn => exact .repeated (hs.1 hn)
  | foreign hn ho => exact .foreign (mt hs.2 hn) ho

namespace TypeGraph

/-- A field at fault after fields that can be stamped ends the stamping. -/
theorem stampFields_of_fault {owner : String} {seen : List String} {f : FieldDeclaration}
    {before out : List FieldDeclaration} {e : GraphError}
    (hb : stampFields owner seen before = .ok out)
    (hf : f.Fault owner (before.map (·.name) ++ seen) e) (after : List FieldDeclaration) :
    stampFields owner seen (before ++ f :: after) = .error e := by
  induction before generalizing seen out with
  | nil =>
    rw [List.map_nil, List.nil_append] at hf
    rw [List.nil_append, stampFields]
    cases hf with
    | repeated hn => rw [if_pos hn]
    | foreign hn ho => rw [if_neg hn, if_neg ho]
  | cons f' before ih =>
    obtain ⟨hs, ho, rest, hr, -⟩ := stampFields_cons_eq_ok.1 hb
    have hf' : f.Fault owner (before.map (·.name) ++ f'.name :: seen) e :=
      hf.congr (by simp [or_left_comm])
    rw [List.cons_append, stampFields, if_neg hs, if_pos ho, ih hr hf']
    rfl

/-- Fields that cannot be stamped have a first one at fault. -/
theorem exists_fault_of_stampFields {owner : String} {seen : List String}
    {fs : List FieldDeclaration} {e : GraphError} (h : stampFields owner seen fs = .error e) :
    ∃ before f after out, fs = before ++ f :: after ∧ stampFields owner seen before = .ok out ∧
      f.Fault owner (before.map (·.name) ++ seen) e := by
  induction fs generalizing seen with
  | nil => cases h
  | cons f fs ih =>
    rw [stampFields] at h
    split at h
    · rename_i hn
      cases h
      exact ⟨[], f, fs, [], rfl, rfl, .repeated hn⟩
    · rename_i hn
      split at h
      · rename_i ho
        cases hs : stampFields owner (f.name :: seen) fs with
        | ok rest =>
          rw [hs] at h
          cases h
        | error e' =>
          rw [hs] at h
          cases h
          obtain ⟨before, f', after, out, rfl, hb, hf⟩ := ih hs
          refine ⟨f :: before, f', after, f.ownedBy owner :: out, rfl, ?_, ?_⟩
          · exact stampFields_cons_eq_ok.2 ⟨hn, ho, out, hb, rfl⟩
          · exact hf.congr (by simp [or_left_comm])
      · rename_i ho
        cases h
        exact ⟨[], f, fs, [], rfl, rfl, .foreign hn ho⟩

/-- The fields of an acceptable type can be stamped, and no others. -/
theorem stampFields_nil_eq_ok {t : TypeDeclaration} {out : List FieldDeclaration} :
    stampFields t.name [] t.fields = .ok out ↔ t.Acceptable ∧ out = t.stamped.fields := by
  rw [stampFields_eq_ok]
  constructor
  · rintro ⟨hd, -, hu, rfl⟩
    exact ⟨⟨hd, hu⟩, rfl⟩
  · rintro ⟨ha, rfl⟩
    exact ⟨ha.distinct, by simp, ha.unclaimed, rfl⟩

/-! ### Refusals -/

/-- Why a declaration does not go into a graph: its name is taken; or the name is free, and one of
    its fields is the first at fault, since those before it are acceptable. -/
inductive Refuses (g : TypeGraph) (t : TypeDeclaration) : GraphError → Prop
  | taken (hn : g.declares t.name = true) : g.Refuses t (.duplicateType t.name)
  | faulty {before after : List FieldDeclaration} {f : FieldDeclaration} {e : GraphError}
    (hn : g.declares t.name = false) (ht : t.fields = before ++ f :: after)
    (hb : TypeDeclaration.Acceptable { t with fields := before })
    (hf : f.Fault t.name (before.map (·.name)) e) : g.Refuses t e

variable {g : TypeGraph} {t : TypeDeclaration}

/-- A declaration goes in exactly if its name is free and it is acceptable. -/
theorem WellFormed.exists_insert_eq_ok (hg : g.WellFormed) :
    (∃ g', g.insert t = .ok g') ↔ g.declares t.name = false ∧ t.Acceptable := by
  rw [← hg.contains_eq]
  constructor
  · rintro ⟨g', hi⟩
    obtain ⟨hn, ha, -⟩ := insert_eq_ok.1 hi
    exact ⟨hn, ha⟩
  · rintro ⟨hn, ha⟩
    exact ⟨g.push t.stamped, insert_eq_ok.2 ⟨hn, ha, rfl⟩⟩

/-- A declaration is refused with the error of its first fault, and with no other. -/
theorem WellFormed.insert_eq_error (hg : g.WellFormed) {e : GraphError} :
    g.insert t = .error e ↔ g.Refuses t e := by
  rw [TypeGraph.insert, hg.contains_eq]
  constructor
  · intro h
    split at h
    · rename_i hn
      cases h
      exact .taken hn
    · rename_i hn
      cases hs : stampFields t.name [] t.fields with
      | ok fields =>
        rw [hs] at h
        cases h
      | error e' =>
        rw [hs] at h
        cases h
        obtain ⟨before, f, after, out, ht, hb, hf⟩ := exists_fault_of_stampFields hs
        rw [List.append_nil] at hf
        have hb' := (stampFields_nil_eq_ok (t := { t with fields := before })).1 hb
        exact .faulty (by simpa using hn) ht hb'.1 hf
  · intro h
    cases h with
    | taken hn => rw [if_pos hn]
    | faulty hn ht hb hf =>
      have hs := stampFields_nil_eq_ok.2 ⟨hb, rfl⟩
      rw [if_neg (by simp [hn]), ht, stampFields_of_fault hs (by simpa using hf)]
      rfl

/-- A declaration that has gone in is found under its name, and the others as before. -/
theorem WellFormed.get?_push (hg : g.WellFormed) (hn : g.declares t.name = false) (ho : t.Owned)
    (name : String) : (g.push t).get? name = if name = t.name then some t else g.get? name := by
  have hp : (g.push t).WellFormed := hg.push (by rw [hg.contains_eq, hn]) ho
  split
  · rename_i he
    exact hp.get?_eq_some_iff.2 ⟨by simp [TypeGraph.push], he.symm⟩
  · rename_i he
    have ht : [t].find? (fun u => u.name = name) = none := by simpa using Ne.symm he
    rw [hp.get?_eq_find?, hg.get?_eq_find?, toList_types_push, List.find?_append, ht, Option.or_none]

/-! ### Writes -/

/-- An insertion as it happens to the graph at hand, which gives the error, if there is one. What has
    been written before an error stays written. -/
def insertInPlace (t : TypeDeclaration) : StateM TypeGraph (Option GraphError) := do
  if (← get).index.contains t.name then
    return some (.duplicateType t.name)
  match stampFields t.name [] t.fields with
  | .error e => return some e
  | .ok fields =>
    modify fun g => { g with index := g.index.insert t.name g.types.size }
    modify fun g => { g with types := g.types.push { t with fields := fields } }
    return none

/-- In place, too, a declaration goes in as a whole or not at all. -/
theorem insertInPlace_run (g : TypeGraph) (t : TypeDeclaration) :
    (insertInPlace t).run g =
      match g.insert t with
      | .ok g' => (none, g')
      | .error e => (some e, g) := by
  rw [insertInPlace, insert, StateT.run_bind, StateT.run_get, pure_bind]
  cases g.index.contains t.name with
  | true => rfl
  | false =>
    cases stampFields t.name [] t.fields with
    | error e => rfl
    | ok fields => rfl

/-! ### Insertion -/

/-- After every history, a declaration goes in exactly if no type of the graph has its name, its
    fields have names of their own and none claims another owner. It is put at the end, with all its
    fields owned by it; the metadata, the types before it and what other names stand for stay. A
    declaration that does not go in leaves the graph as it is, and the error is that its name is taken
    or, if the name is free, what is wrong with the first of its fields at fault. -/
theorem run_insert (history : List Operation) (t : TypeDeclaration) :
    let g := run history
    let after := run (history ++ [.insert t])
    ((∃ g', g.insert t = .ok g') ↔ (∀ u ∈ g.types, u.name ≠ t.name) ∧
      (t.fields.map (·.name)).Nodup ∧ ∀ f ∈ t.fields, f.owner = "" ∨ f.owner = t.name) ∧
    -- what goes in
    (∀ g', g.insert t = .ok g' → after = g' ∧ (insertInPlace t).run g = (none, g') ∧
      g'.metadata = g.metadata ∧ g'.types.toList = g.types.toList ++ [t.stamped] ∧
      ∀ name, g'.get? name = if name = t.name then some t.stamped else g.get? name) ∧
    -- what is refused
    (∀ e, g.insert t = .error e ↔ g.Refuses t e) ∧
    ∀ e, g.insert t = .error e → after = g ∧ (insertInPlace t).run g = (some e, g) := by
  intro g after
  have hg : g.WellFormed := wellFormed_run history
  have hafter : after = (g.insert t).toOption.getD g := run_append history [.insert t]
  have hrun := insertInPlace_run g t
  refine ⟨?_, ?_, fun e => hg.insert_eq_error, ?_⟩
  · rw [hg.exists_insert_eq_ok, declares_eq_false_iff]
    refine and_congr_right fun _ => ?_
    exact ⟨fun ha => ⟨ha.distinct, ha.unclaimed⟩, fun ha => ⟨ha.1, ha.2⟩⟩
  · intro g' hi
    rw [hi] at hafter hrun
    obtain ⟨hn, ha, rfl⟩ := insert_eq_ok.1 hi
    rw [hg.contains_eq] at hn
    exact ⟨hafter, hrun, rfl, toList_types_push g _, hg.get?_push hn ha.owned_stamped⟩
  · intro e hi
    rw [hi] at hafter hrun
    exact ⟨hafter, hrun⟩

/-- A second field of one name that claims another owner, too, is refused for its name, and a first
    one for its owner. Without it the declaration goes in. -/
theorem run_insert_twice :
    let x : FieldDeclaration := { name := "x", type := .primitive "int" }
    let y : FieldDeclaration := { x with owner := "b.Point" }
    let point (fields : List FieldDeclaration) : TypeDeclaration :=
      { name := "a.Point", kind := .classKind, fields := fields }
    empty.insert (point [x, y]) = .error (.duplicateField "a.Point" "x") ∧
      empty.insert (point [y, x]) = .error (.ownerMismatch "x" "b.Point" "a.Point") ∧
      run [.insert (point [x, y])] = empty ∧
      (run [.insert (point [x])]).types.toList = [(point [x]).stamped] := by
  intro x y point
  have he : run [] = empty := by rw [run, Operation.applyAll]
  have hfree : empty.declares "a.Point" = false := by simp [declares, empty]
  obtain ⟨-, -, hxy, hkept⟩ := run_insert [] (point [x, y])
  obtain ⟨-, -, hyx, -⟩ := run_insert [] (point [y, x])
  obtain ⟨hgoes, hin, -, -⟩ := run_insert [] (point [x])
  rw [he] at hxy hkept hyx hgoes hin
  have hrepeated : empty.insert (point [x, y]) = .error (.duplicateField "a.Point" "x") :=
    (hxy _).2 (.faulty hfree (show _ = [x] ++ y :: [] from rfl) (by decide)
      (.repeated (by decide)))
  have hforeign : empty.insert (point [y, x]) = .error (.ownerMismatch "x" "b.Point" "a.Point") :=
    (hyx _).2 (.faulty hfree (show _ = [] ++ y :: [x] from rfl) (by decide)
      (.foreign (by decide) (by decide)))
  obtain ⟨g', hg'⟩ := hgoes.2 ⟨by simp [empty], by decide, by decide⟩
  obtain ⟨rfl, -, -, ht, -⟩ := hin g' hg'
  exact ⟨hrepeated, hforeign, (hkept _ hrepeated).1, ht⟩

end TypeGraph

end Immutability
