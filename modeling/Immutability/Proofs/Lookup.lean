import Immutability.Lookup
import Immutability.Proofs.DottedName
import Immutability.Proofs.Graph.Union

/-! Which type a name finds.

    A type of the name itself is found by the index and wins over all others. Only if there is none,
    the types whose names end in it, part by part, are searched for, and one is found if it is the only
    one. All of this depends on the declarations and not on their order, which is only the order in
    which several candidates are listed. -/

namespace Immutability

/-- The parts of a name end in those of another one, and there are more of them. -/
def EndsIn (simple name : String) : Prop :=
  segments simple <:+ segments name ∧ segments simple ≠ segments name

theorem endsInSimple_iff {simple name : String} :
    endsInSimple simple name = true ↔ EndsIn simple name := by
  rw [endsInSimple, List.isSuffixOf_iff_suffix]
  constructor
  · rintro ⟨front, hf⟩
    have hn : name = .ofList front ++ "." ++ simple := by
      rw [← String.toList_inj, ← hf]
      simp
    rw [EndsIn, hn, segments_append_dot_append]
    refine ⟨List.suffix_append _ _, fun he => ?_⟩
    exact segments_ne_nil (.ofList front) (List.self_eq_append_left.1 he)
  · rintro ⟨⟨front, hf⟩, hne⟩
    have hfront : front ≠ [] := by
      rintro rfl
      exact hne hf
    have hn := intercalate_segments name
    rw [← hf, String.intercalate_append_of_ne_nil hfront (segments_ne_nil simple),
      intercalate_segments] at hn
    exact ⟨(".".intercalate front).toList, by simp [← hn]⟩

instance (simple name : String) : Decidable (EndsIn simple name) :=
  decidable_of_iff _ endsInSimple_iff

namespace TypeGraph

variable {g h : TypeGraph} {name : String} {t : TypeDeclaration}

/-- The types whose names end in a name, in the order of the graph. -/
def candidates (g : TypeGraph) (name : String) : List TypeDeclaration :=
  g.types.toList.filter fun t => EndsIn name t.name

theorem mem_candidates : t ∈ g.candidates name ↔ t ∈ g.types ∧ EndsIn name t.name := by
  simp [candidates]

theorem candidates_eq_filter (g : TypeGraph) (name : String) :
    (g.types.toList.filter fun t => endsInSimple name t.name) = g.candidates name := by
  refine List.filter_congr fun t _ => ?_
  rw [Bool.eq_iff_iff, endsInSimple_iff, decide_eq_true_iff]

/-- What a name finds: its own type, or else the only candidate. -/
inductive Finds (g : TypeGraph) (name : String) : Except LookupError TypeDeclaration → Prop
  | itself {t : TypeDeclaration} (ht : t ∈ g.types) (hn : t.name = name) : Finds g name (.ok t)
  | candidate {t : TypeDeclaration} (hn : ∀ u ∈ g.types, u.name ≠ name)
    (hc : g.candidates name = [t]) : Finds g name (.ok t)
  | nothing (hn : ∀ u ∈ g.types, u.name ≠ name) (hc : g.candidates name = []) :
    Finds g name (.error (.notFound name))
  | several (hn : ∀ u ∈ g.types, u.name ≠ name) (hc : 2 ≤ (g.candidates name).length) :
    Finds g name (.error (.ambiguous name ((g.candidates name).map (·.name))))

namespace WellFormed

theorem candidates_nodup (hg : g.WellFormed) (name : String) : (g.candidates name).Nodup :=
  (List.Nodup.of_map _ hg.names_nodup).filter _

theorem find_finds (hg : g.WellFormed) (name : String) : g.Finds name (g.find name) := by
  rw [find, candidates_eq_filter]
  cases hget : g.get? name with
  | some t =>
    obtain ⟨ht, hn⟩ := hg.get?_eq_some_iff.1 hget
    exact .itself ht hn
  | none =>
    have hn : ∀ u ∈ g.types, u.name ≠ name := by
      intro u hu he
      cases hget.symm.trans (hg.get?_eq_some_iff.2 ⟨hu, he⟩)
    dsimp only
    split
    · rename_i hc
      exact .nothing hn hc
    · rename_i t hc
      exact .candidate hn hc
    · rename_i hnil hone
      refine .several hn ?_
      rcases hc : g.candidates name with _ | ⟨t, _ | ⟨u, us⟩⟩
      · exact absurd hc hnil
      · exact absurd hc (hone t)
      · simp

theorem find_eq_ok_iff (hg : g.WellFormed) :
    g.find name = .ok t ↔ t ∈ g.types ∧ (t.name = name ∨ (∀ u ∈ g.types, u.name ≠ name) ∧
      ∀ u ∈ g.types, EndsIn name u.name ↔ u = t) := by
  have hf := hg.find_finds name
  generalize g.find name = r at hf
  cases hf with
  | @itself u hu hn =>
    rw [Except.ok.injEq]
    constructor
    · rintro rfl
      exact ⟨hu, Or.inl hn⟩
    · rintro ⟨ht, he | ⟨hne, -⟩⟩
      · exact hg.eq_of_name_eq hu ht (hn.trans he.symm)
      · exact absurd hn (hne u hu)
  | @candidate u hn hc =>
    have hmem : ∀ v, v ∈ g.types ∧ EndsIn name v.name ↔ v = u := by
      intro v
      rw [← mem_candidates, hc, List.mem_singleton]
    obtain ⟨hu, hue⟩ := (hmem u).2 rfl
    rw [Except.ok.injEq]
    constructor
    · rintro rfl
      exact ⟨hu, Or.inr ⟨hn, fun v hv => by rw [← hmem v, and_iff_right hv]⟩⟩
    · rintro ⟨ht, he | ⟨-, hall⟩⟩
      · exact absurd he (hn t ht)
      · exact (hall u hu).1 hue
  | nothing hn hc =>
    refine iff_of_false nofun ?_
    rintro ⟨ht, he | ⟨-, hall⟩⟩
    · exact hn t ht he
    · have hm := mem_candidates.2 ⟨ht, (hall t ht).2 rfl⟩
      rw [hc] at hm
      cases hm
  | several hn hc =>
    refine iff_of_false nofun ?_
    rintro ⟨ht, he | ⟨-, hall⟩⟩
    · exact hn t ht he
    · -- all candidates are the same type, and no type is twice among them
      have hsame : ∀ u ∈ g.candidates name, u = t := fun u hu =>
        (hall u (mem_candidates.1 hu).1).1 (mem_candidates.1 hu).2
      have hone := hg.candidates_nodup name
      rw [List.eq_replicate_of_mem hsame, List.nodup_replicate] at hone
      omega

theorem find_eq_notFound_iff (hg : g.WellFormed) :
    g.find name = .error (.notFound name) ↔
      ∀ u ∈ g.types, u.name ≠ name ∧ ¬ EndsIn name u.name := by
  have hf := hg.find_finds name
  generalize g.find name = r at hf
  cases hf with
  | itself ht hn => exact iff_of_false nofun fun h => (h _ ht).1 hn
  | @candidate t hn hc =>
    obtain ⟨ht, he⟩ := mem_candidates.1 (hc ▸ List.mem_singleton_self t)
    exact iff_of_false nofun fun h => (h t ht).2 he
  | nothing hn hc =>
    refine iff_of_true rfl fun u hu => ⟨hn u hu, fun he => ?_⟩
    have hm := mem_candidates.2 ⟨hu, he⟩
    rw [hc] at hm
    cases hm
  | several hn hc =>
    obtain ⟨t, ht⟩ := List.exists_mem_of_length_pos (Nat.lt_of_lt_of_le Nat.two_pos hc)
    obtain ⟨ht, he⟩ := mem_candidates.1 ht
    exact iff_of_false nofun fun h => (h t ht).2 he

theorem find_eq_ambiguous_iff (hg : g.WellFormed) {names : List String} :
    g.find name = .error (.ambiguous name names) ↔
      (∀ u ∈ g.types, u.name ≠ name) ∧ 2 ≤ names.length ∧
        names = (g.candidates name).map (·.name) := by
  have hf := hg.find_finds name
  generalize g.find name = r at hf
  cases hf with
  | itself ht hn => exact iff_of_false nofun fun h => h.1 _ ht hn
  | candidate hn hc =>
    refine iff_of_false nofun ?_
    rintro ⟨-, hl, rfl⟩
    simp [hc] at hl
  | nothing hn hc =>
    refine iff_of_false nofun ?_
    rintro ⟨-, hl, rfl⟩
    simp [hc] at hl
  | several hn hc =>
    constructor
    · intro h
      cases h
      exact ⟨hn, by rwa [List.length_map], rfl⟩
    · rintro ⟨-, -, rfl⟩
      rfl

/-- A name that finds nothing is unknown or ambiguous. -/
theorem find_eq_error (hg : g.WellFormed) {e : LookupError} (he : g.find name = .error e) :
    e = .notFound name ∨ ∃ names, e = .ambiguous name names := by
  have hf := hg.find_finds name
  rw [he] at hf
  cases hf with
  | nothing => exact Or.inl rfl
  | several => exact Or.inr ⟨_, rfl⟩

end WellFormed

/-- After every history of a graph, a name finds the type of that name, whatever other names end in
    it; or, if there is none, the only type whose name ends in it part by part. It is unknown if no
    name is it or ends in it, and ambiguous if it is no type's name and at least two names end in it,
    which are listed in the order of the graph. Graphs with the same declarations in different orders
    find the same type, or fail in the same way, up to the order of that list. -/
theorem run_find (history : List Operation) (name : String) :
    let g := run history
    (∀ t, g.find name = .ok t ↔ t ∈ g.types ∧ (t.name = name ∨
      (∀ u ∈ g.types, u.name ≠ name) ∧ ∀ u ∈ g.types, EndsIn name u.name ↔ u = t)) ∧
    (∀ t ∈ g.types, g.find t.name = .ok t) ∧
    -- failures
    (g.find name = .error (.notFound name) ↔
      ∀ u ∈ g.types, u.name ≠ name ∧ ¬ EndsIn name u.name) ∧
    (∀ names, g.find name = .error (.ambiguous name names) ↔
      (∀ u ∈ g.types, u.name ≠ name) ∧ 2 ≤ names.length ∧
        names = (g.types.toList.map (·.name)).filter fun n => EndsIn name n) ∧
    (∀ e, g.find name = .error e → e = .notFound name ∨ ∃ names, e = .ambiguous name names) ∧
    -- other orders
    ∀ history', (run history').types.toList.Perm g.types.toList →
      (∀ t, (run history').find name = .ok t ↔ g.find name = .ok t) ∧
      ((run history').find name = .error (.notFound name) ↔
        g.find name = .error (.notFound name)) ∧
      ∀ names, g.find name = .error (.ambiguous name names) →
        ∃ names', (run history').find name = .error (.ambiguous name names') ∧
          names'.Perm names := by
  intro g
  have hg : g.WellFormed := wellFormed_run history
  have hnames : (g.types.toList.map (·.name)).filter (fun n => EndsIn name n) =
      (g.candidates name).map (·.name) := List.filter_map
  refine ⟨fun t => hg.find_eq_ok_iff, ?_, hg.find_eq_notFound_iff, ?_, fun e => hg.find_eq_error,
    ?_⟩
  · intro t ht
    exact hg.find_eq_ok_iff.2 ⟨ht, Or.inl rfl⟩
  · intro names
    rw [hnames]
    exact hg.find_eq_ambiguous_iff
  · intro history' hp
    have hh : (run history').WellFormed := wellFormed_run history'
    have hmem : ∀ u, u ∈ (run history').types ↔ u ∈ g.types := by
      intro u
      rw [← Array.mem_toList_iff, hp.mem_iff, Array.mem_toList_iff]
    have hc : ((run history').candidates name).Perm (g.candidates name) := hp.filter _
    refine ⟨fun t => ?_, ?_, ?_⟩
    · rw [hh.find_eq_ok_iff, hg.find_eq_ok_iff]
      simp only [hmem]
    · rw [hh.find_eq_notFound_iff, hg.find_eq_notFound_iff]
      simp only [hmem]
    · intro names hn
      obtain ⟨hne, hl, rfl⟩ := hg.find_eq_ambiguous_iff.1 hn
      have hp' := hc.map (·.name)
      refine ⟨_, hh.find_eq_ambiguous_iff.2 ⟨fun u hu => hne u ((hmem u).1 hu), ?_, rfl⟩, hp'⟩
      rwa [hp'.length_eq]

/-- A simple name of two types and of a third one that is called so. -/
theorem run_find_address :
    let home : TypeDeclaration := { name := "a.Address", kind := .classKind }
    let work : TypeDeclaration := { name := "b.Address", kind := .classKind }
    let person : TypeDeclaration := { name := "Person", kind := .classKind }
    let other : TypeDeclaration := { name := "a.Person", kind := .classKind }
    let g := run [.declarations [home, work, person, other]]
    let h := run [.declarations [other, work, person, home]]
    h.types.toList.Perm g.types.toList ∧
      g.find "Person" = .ok person.stamped ∧ h.find "Person" = .ok person.stamped ∧
      g.find "Address" = .error (.ambiguous "Address" ["a.Address", "b.Address"]) ∧
      ∃ names', h.find "Address" = .error (.ambiguous "Address" names') ∧
        names'.Perm ["a.Address", "b.Address"] := by
  intro home work person other g h
  have hdecl : (∀ t ∈ [home, work, person, other], t.Acceptable) ∧
      ([home, work, person, other].map (·.name)).Nodup ∧
      [other, work, person, home].Perm [home, work, person, other] ∧
      (∀ u ∈ [home, work, person, other].map (·.stamped), u.name ≠ "Address") ∧
      (([home, work, person, other].map (·.stamped)).map (·.name)).filter
        (fun n => EndsIn "Address" n) = ["a.Address", "b.Address"] := by decide +revert
  obtain ⟨ha, hn, hts, hne, hends⟩ := hdecl
  have hg : g.types.toList = [home, work, person, other].map (·.stamped) :=
    toList_types_run_declarations ha hn
  have hh : h.types.toList = [other, work, person, home].map (·.stamped) :=
    toList_types_run_declarations (fun t ht => ha t (hts.mem_iff.1 ht)) ((hts.map _).nodup_iff.2 hn)
  have hp : h.types.toList.Perm g.types.toList := by
    rw [hg, hh]
    exact hts.map _
  obtain ⟨-, -, -, hamb, -, horder⟩ :=
    run_find [.declarations [home, work, person, other]] "Address"
  obtain ⟨-, hitself, -, -, -, horder'⟩ :=
    run_find [.declarations [home, work, person, other]] "Person"
  have hperson : g.find "Person" = .ok person.stamped := by
    refine hitself person.stamped ?_
    rw [← Array.mem_toList_iff, hg]
    exact List.mem_map_of_mem (by simp)
  have haddress : g.find "Address" = .error (.ambiguous "Address" ["a.Address", "b.Address"]) := by
    refine (hamb _).2 ⟨?_, Nat.le_refl 2, ?_⟩
    · intro u hu
      rw [← Array.mem_toList_iff, hg] at hu
      exact hne u hu
    · rw [hg, hends]
  exact ⟨hp, hperson, ((horder' _ hp).1 _).2 hperson, haddress, (horder _ hp).2.2 _ haddress⟩

end TypeGraph

end Immutability
