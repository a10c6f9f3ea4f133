import Immutability.Discovery
import Immutability.Proofs.Graph.Insertion
import Mathlib.Data.List.Nodup

/-! What holds of every graph, whatever has been done to it.

    The index holds the place of each name and nothing else, every type has fields with names of
    their own, and each field knows its owner. An insertion keeps this, also one that fails; so does
    everything that is made of insertions, and so does every history of operations. Looking a name
    up in the index therefore gives what a search through the declarations gives. -/

namespace Immutability

namespace TypeGraph

/-- The index gives the place of every declaration, and the declarations own their fields. -/
structure WellFormed (g : TypeGraph) : Prop where
  index_iff : ∀ name i, g.index[name]? = some i ↔
    ∃ t : TypeDeclaration, g.types[i]? = some t ∧ t.name = name
  owned : ∀ t ∈ g.types, t.Owned

theorem mem_of_around {g : TypeGraph} {t : TypeDeclaration} {before after : List TypeDeclaration}
    (ht : g.types.toList = before ++ t :: after) : t ∈ g.types := by
  rw [← Array.mem_toList_iff, ht]
  exact List.mem_append_right _ List.mem_cons_self

namespace WellFormed

variable {g : TypeGraph}

/-! ### What the index tells -/

/-- A name is in the index exactly if a declaration has it. -/
theorem contains_iff (h : g.WellFormed) (name : String) :
    g.index.contains name = true ↔ ∃ t ∈ g.types, t.name = name := by
  rw [Std.HashMap.contains_eq_isSome_getElem?, Option.isSome_iff_exists]
  constructor
  · rintro ⟨i, hi⟩
    obtain ⟨t, ht, hn⟩ := (h.index_iff name i).1 hi
    exact ⟨t, Array.mem_of_getElem? ht, hn⟩
  · rintro ⟨t, ht, hn⟩
    obtain ⟨i, hi⟩ := Array.mem_iff_getElem?.1 ht
    exact ⟨i, (h.index_iff name i).2 ⟨t, hi, hn⟩⟩

/-- Declarations of one name stand at one place. -/
theorem place_unique (h : g.WellFormed) {i j : Nat} {t u : TypeDeclaration}
    (hi : g.types[i]? = some t) (hj : g.types[j]? = some u) (hn : t.name = u.name) : i = j := by
  have hi' : g.index[u.name]? = some i := (h.index_iff _ _).2 ⟨t, hi, hn⟩
  have hj' : g.index[u.name]? = some j := (h.index_iff _ _).2 ⟨u, hj, rfl⟩
  rw [hi'] at hj'
  exact Option.some.inj hj'

/-- A name stands for one declaration. -/
theorem eq_of_name_eq (h : g.WellFormed) {t u : TypeDeclaration} (ht : t ∈ g.types)
    (hu : u ∈ g.types) (hn : t.name = u.name) : t = u := by
  obtain ⟨i, hi⟩ := Array.mem_iff_getElem?.1 ht
  obtain ⟨j, hj⟩ := Array.mem_iff_getElem?.1 hu
  obtain rfl := h.place_unique hi hj hn
  rw [hi] at hj
  exact Option.some.inj hj

/-- A name of a type and a name of a field stand for one field. -/
theorem eq_of_names_eq (h : g.WellFormed) {t u : TypeDeclaration} {f f' : FieldDeclaration}
    (ht : t ∈ g.types) (hu : u ∈ g.types) (hf : f ∈ t.fields) (hf' : f' ∈ u.fields)
    (hn : t.name = u.name) (hfn : f.name = f'.name) : t = u ∧ f = f' := by
  obtain rfl := h.eq_of_name_eq ht hu hn
  exact ⟨rfl, List.inj_on_of_nodup_map (h.owned t ht).distinct hf hf' hfn⟩

/-- No name is declared twice. -/
theorem names_nodup (h : g.WellFormed) : (g.types.toList.map (·.name)).Nodup := by
  rw [List.Nodup, List.pairwise_map, List.pairwise_iff_getElem]
  intro i j hi hj hij he
  have hi' : g.types[i]? = some g.types.toList[i] := by simp
  have hj' : g.types[j]? = some g.types.toList[j] := by simp
  exact absurd (h.place_unique hi' hj' he) (Nat.ne_of_lt hij)

/-- The other types of the graph have other names. -/
theorem name_ne_of_around (h : g.WellFormed) {t : TypeDeclaration}
    {before after : List TypeDeclaration} (ht : g.types.toList = before ++ t :: after) :
    ∀ u ∈ before ++ after, u.name ≠ t.name := by
  have hn := h.names_nodup
  rw [ht, List.map_append, List.map_cons, List.nodup_middle, ← List.map_append] at hn
  intro u hu he
  exact (List.nodup_cons.1 hn).1 (List.mem_map.2 ⟨u, hu, he⟩)

theorem owned_of_around (h : g.WellFormed) {t : TypeDeclaration}
    {before after : List TypeDeclaration} (ht : g.types.toList = before ++ t :: after) : t.Owned :=
  h.owned t (mem_of_around ht)

/-- Looking a name up gives the declaration of that name. -/
theorem get?_eq_some_iff (h : g.WellFormed) {name : String} {t : TypeDeclaration} :
    g.get? name = some t ↔ t ∈ g.types ∧ t.name = name := by
  rw [get?, Option.bind_eq_some_iff]
  constructor
  · rintro ⟨i, hi, ht⟩
    obtain ⟨u, hu, hn⟩ := (h.index_iff name i).1 hi
    rw [ht] at hu
    obtain rfl := Option.some.inj hu
    exact ⟨Array.mem_of_getElem? ht, hn⟩
  · rintro ⟨ht, hn⟩
    obtain ⟨i, hi⟩ := Array.mem_iff_getElem?.1 ht
    exact ⟨i, (h.index_iff name i).2 ⟨t, hi, hn⟩, hi⟩

/-- Looking a name up gives what a search through the declarations gives. -/
theorem get?_eq_find? (h : g.WellFormed) (name : String) :
    g.get? name = g.types.toList.find? fun t => t.name = name := by
  cases hf : g.types.toList.find? fun t => t.name = name with
  | some t =>
    have hn : t.name = name := by simpa using List.find?_some hf
    exact h.get?_eq_some_iff.2 ⟨by simpa using List.mem_of_find?_eq_some hf, hn⟩
  | none =>
    rw [Option.eq_none_iff_forall_ne_some]
    intro t ht
    obtain ⟨hm, hn⟩ := h.get?_eq_some_iff.1 ht
    have := List.find?_eq_none.1 hf t (by simpa using hm)
    simp [hn] at this

/-- A name stands for the same declaration in graphs with the same declarations. -/
theorem get?_eq_of_types {h : TypeGraph} (hg : g.WellFormed) (hh : h.WellFormed)
    (ht : g.types = h.types) : g.get? = h.get? := by
  funext name
  rw [hg.get?_eq_find?, hh.get?_eq_find?, ht]

/-! ### What keeps a graph well formed -/

theorem init (m : Metadata) : WellFormed { empty with metadata := m } := by
  refine ⟨?_, ?_⟩
  · intro name i
    simp [empty]
  · intro t ht
    simp [empty] at ht

/-- Metadata takes no part in it. -/
theorem withMetadata (h : g.WellFormed) (m : Metadata) : WellFormed { g with metadata := m } :=
  ⟨h.index_iff, h.owned⟩

theorem push (h : g.WellFormed) {t : TypeDeclaration} (hn : g.index.contains t.name = false)
    (ho : t.Owned) : (g.push t).WellFormed := by
  -- the name of `t` is free, so no declaration before it is looked up under that name
  have hfree : ∀ u ∈ g.types, u.name ≠ t.name := by
    intro u hu he
    have := (h.contains_iff t.name).2 ⟨u, hu, he⟩
    rw [hn] at this
    cases this
  refine ⟨?_, ?_⟩
  · intro name i
    simp only [TypeGraph.push, Std.HashMap.getElem?_insert, Array.getElem?_push, beq_iff_eq]
    by_cases he : t.name = name
    · rw [if_pos he]
      constructor
      · rintro ⟨⟩
        exact ⟨t, by simp, he⟩
      · rintro ⟨u, hu, hun⟩
        split at hu
        · rename_i hi
          rw [hi]
        · exact absurd (hun.trans he.symm) (hfree u (Array.mem_of_getElem? hu))
    · rw [if_neg he, h.index_iff]
      constructor
      · rintro ⟨u, hu, hun⟩
        have hi : i ≠ g.types.size := by
          rintro rfl
          simp at hu
        exact ⟨u, by rw [if_neg hi]; exact hu, hun⟩
      · rintro ⟨u, hu, hun⟩
        split at hu
        · cases hu
          exact absurd hun he
        · exact ⟨u, hu, hun⟩
  · intro u hu
    rcases Array.mem_push.1 hu with hu | rfl
    · exact h.owned u hu
    · exact ho

theorem insert (h : g.WellFormed) {g' : TypeGraph} {t : TypeDeclaration}
    (hi : g.insert t = .ok g') : g'.WellFormed := by
  obtain ⟨hn, ha, rfl⟩ := insert_eq_ok.1 hi
  exact h.push hn ha.owned_stamped

/-- Inserting declarations one by one keeps a graph well formed, wherever it stops. -/
theorem insertAll (h : g.WellFormed) (ts : List TypeDeclaration) :
    (g.insertAll ts).1.WellFormed := by
  induction ts generalizing g with
  | nil => exact h
  | cons t ts ih =>
    rw [TypeGraph.insertAll]
    split
    · exact h
    · rename_i g' hi
      exact ih (h.insert hi)

theorem merge (h : g.WellFormed) (other : TypeGraph) : (g.merge other).1.WellFormed :=
  (h.withMetadata _).insertAll _

theorem ofDocument {d : Document} (hd : TypeGraph.ofDocument d = .ok g) : g.WellFormed := by
  have hw := (init d.metadata).insertAll d.types
  rw [TypeGraph.ofDocument] at hd
  split at hd
  · rename_i g' hi
    rw [hi] at hw
    cases hd
    exact hw
  · cases hd

theorem ofText {s : String} (hs : TypeGraph.ofText s = .ok g) : g.WellFormed := by
  rw [TypeGraph.ofText] at hs
  split at hs
  · cases hs
  · split at hs
    · cases hs
    · rename_i hd
      cases hs
      exact ofDocument hd

end WellFormed

end TypeGraph

/-! ### Histories -/

/-- What can be done to the graph at hand: put another graph in its place, add a declaration, or
    merge a graph that has a history of its own. -/
inductive Operation where
  | renew
  | load (text : String)
  | document (document : Document)
  | declarations (types : List TypeDeclaration)
  | insert (type : TypeDeclaration)
  | merge (history : List Operation)

mutual

/-- The graph after an operation. One that fails leaves the graph as it was, except that a merge
    keeps what it has taken over. -/
def Operation.apply (g : TypeGraph) : Operation → TypeGraph
  | .renew => .empty
  | .load text => (TypeGraph.ofText text).toOption.getD g
  | .document d => (TypeGraph.ofDocument d).toOption.getD g
  | .declarations ts => (TypeGraph.ofDeclarations ts).toOption.getD g
  | .insert t => (g.insert t).toOption.getD g
  | .merge history => (g.merge (Operation.applyAll .empty history)).1

/-- The graph after the operations of a list. -/
def Operation.applyAll (g : TypeGraph) : List Operation → TypeGraph
  | [] => g
  | op :: ops => Operation.applyAll (op.apply g) ops

end

namespace TypeGraph

/-- The graph that a history of operations leads to. -/
def run (history : List Operation) : TypeGraph := Operation.applyAll .empty history

theorem WellFormed.getD {ε : Type} {g : TypeGraph} (h : g.WellFormed) {r : Except ε TypeGraph}
    (hr : ∀ g', r = .ok g' → g'.WellFormed) : (r.toOption.getD g).WellFormed := by
  cases r with
  | error e => exact h
  | ok g' => exact hr g' rfl

/-- One operation keeps a graph well formed. -/
theorem WellFormed.apply {g : TypeGraph} (h : g.WellFormed) (op : Operation) :
    (op.apply g).WellFormed := by
  cases op with
  | renew => exact .init {}
  | load text => exact h.getD fun _ => .ofText
  | document d => exact h.getD fun _ => .ofDocument
  | declarations ts => exact h.getD fun _ => .ofDocument
  | insert t => exact h.getD fun _ => h.insert
  | merge history => exact h.merge _

theorem WellFormed.applyAll {g : TypeGraph} (h : g.WellFormed) (ops : List Operation) :
    (Operation.applyAll g ops).WellFormed := by
  induction ops generalizing g with
  | nil => exact h
  | cons op ops ih => exact ih (h.apply op)

/-- Every history leads to a well-formed graph. -/
theorem wellFormed_run (history : List Operation) : (run history).WellFormed :=
  (WellFormed.init {}).applyAll history

/-- A history that goes on is run from where the first part of it has led. -/
theorem run_append (history ops : List Operation) :
    run (history ++ ops) = Operation.applyAll (run history) ops := by
  have h : ∀ g, Operation.applyAll g (history ++ ops) =
      Operation.applyAll (Operation.applyAll g history) ops := by
    induction history with
    | nil => exact fun g => rfl
    | cons op history ih => exact fun g => ih (op.apply g)
  exact h .empty

/-- After every history the index holds the place of each declaration and nothing else, names are
    declared once, the fields of a type have names of their own and know their owner, and looking a
    name up is searching the declarations for it. A primitive type is never looked up, even if a
    declaration has its identifier. -/
theorem run_lookup (history : List Operation) :
    let g := run history
    (∀ name i, g.index[name]? = some i ↔
      ∃ t : TypeDeclaration, g.types[i]? = some t ∧ t.name = name) ∧
    (g.types.toList.map (·.name)).Nodup ∧
    (∀ t ∈ g.types, (t.fields.map (·.name)).Nodup ∧ ∀ f ∈ t.fields, f.owner = t.name) ∧
    (∀ name t, g.get? name = some t ↔ t ∈ g.types ∧ t.name = name) ∧
    (∀ name t, g.resolve? (.named name) = some t ↔ t ∈ g.types ∧ t.name = name) ∧
    (∀ name, g.get? name = g.types.toList.find? fun t => t.name = name) ∧
    ∀ identifier, g.resolve? (.primitive identifier) = none := by
  have h := wellFormed_run history
  refine ⟨h.index_iff, h.names_nodup, ?_, ?_, ?_, h.get?_eq_find?, ?_⟩
  · intro t ht
    exact ⟨(h.owned t ht).distinct, (h.owned t ht).owner_eq⟩
  · intro name t
    exact h.get?_eq_some_iff
  · intro name t
    exact h.get?_eq_some_iff
  · intro identifier
    rfl

end TypeGraph

end Immutability
