import Immutability.Config
import Immutability.Proofs.Keyed
import Immutability.Proofs.Text.Bytes
import Mathlib.Data.Finset.Card

/-! What a registry knows after any history of registrations.

    A registry holds the names that it was begun with and those that were registered, whether one by
    one or as lists. It lists them without repetition in the order of their UTF-8 bytes, so it is
    determined by the set of the names and does not tell in which order or how often they came. -/

namespace Immutability

namespace Registry

/-- What a registry is begun with. -/
inductive Seed where | empty | library
  deriving DecidableEq

namespace Seed

/-- The registry that is begun. -/
def registry : Seed → Registry
  | empty => .empty
  | library => .library

/-- The names that it is begun with. -/
def ids : Seed → List String
  | empty => []
  | library => libraryTypes

end Seed

/-- One step in the history of a registry. -/
inductive Step where
  /-- Registers a name and asks whether it was new. -/
  | register (id : String)
  /-- Registers a name. -/
  | insert (id : String)
  /-- Registers the names of a list. -/
  | extend (ids : List String)

namespace Step

/-- The registry after a step. -/
def apply (r : Registry) : Step → Registry
  | register id => (r.register id).2
  | insert id => r.insert id
  | extend ids => r.extend ids

/-- The names that a step registers. -/
def ids : Step → List String
  | register id => [id]
  | insert id => [id]
  | extend ids => ids

end Step

/-- The registry after a history. -/
def run (seed : Seed) (steps : List Step) : Registry := steps.foldl Step.apply seed.registry

/-- The names that came into a registry, in their order and with repetitions. -/
def registered (seed : Seed) (steps : List Step) : List String := seed.ids ++ steps.flatMap Step.ids

theorem run_append (seed : Seed) (steps more : List Step) :
    run seed (steps ++ more) = more.foldl Step.apply (run seed steps) :=
  List.foldl_append

/-! ### Names -/

theorem Seed.contains_registry (seed : Seed) (id : String) :
    seed.registry.contains id = true ↔ id ∈ seed.ids := by
  cases seed with
  | empty => simp [registry, ids]
  | library => simp [registry, ids, Registry.library]

/-- A step adds its names and loses none. -/
theorem Step.contains_apply (step : Step) (r : Registry) (id : String) :
    (step.apply r).contains id = true ↔ r.contains id = true ∨ id ∈ step.ids := by
  cases step <;> simp [apply, ids, Registry.register, or_comm]

theorem contains_foldl (steps : List Step) (r : Registry) (id : String) :
    (steps.foldl Step.apply r).contains id = true ↔
      r.contains id = true ∨ id ∈ steps.flatMap Step.ids := by
  induction steps generalizing r with
  | nil => simp
  | cons step steps ih =>
    rw [List.foldl_cons, ih, step.contains_apply, List.flatMap_cons, List.mem_append, or_assoc]

/-- A registry knows the names that came into it. -/
theorem contains_run (seed : Seed) (steps : List Step) (id : String) :
    (run seed steps).contains id = true ↔ id ∈ registered seed steps := by
  rw [run, contains_foldl, seed.contains_registry, registered, List.mem_append]

/-! ### Listing -/

theorem mem_toList {r : Registry} {id : String} : id ∈ r.toList ↔ r.contains id = true :=
  Keyed.mem_keys_iff

/-- A registry lists its names in the order of their bytes. -/
theorem toList_increasing (r : Registry) :
    r.toList.Pairwise fun a b => a.toUTF8.toList < b.toUTF8.toList :=
  r.table.keys_increasing.imp bytes_lt_iff.2

/-- A registry has as many names as there are in a set that it knows. -/
theorem size_eq_card {r : Registry} {ids : List String}
    (h : ∀ id, r.contains id = true ↔ id ∈ ids) : r.size = ids.toFinset.card := by
  have hn : r.toList.Nodup := r.table.keys_nodup
  rw [size, ← List.toFinset_card_of_nodup hn]
  congr 1
  ext id
  rw [List.mem_toFinset, List.mem_toFinset, ← h]
  exact mem_toList

theorem isEmpty_iff {r : Registry} : r.isEmpty = true ↔ r.size = 0 := by
  rw [isEmpty, size, List.isEmpty_iff, List.length_eq_zero_iff]

/-- Registries that know the same names are the same. -/
theorem eq_of_contains_iff {r s : Registry} (h : ∀ id, r.contains id = true ↔ s.contains id = true) :
    r = s := by
  have ht : r.table = s.table := by
    refine Keyed.eq_of_get?_eq fun id => ?_
    have hid := h id
    rw [contains, contains] at hid
    cases hr : r.table.get? id <;> cases hs : s.table.get? id <;> simp [hr, hs] at hid ⊢
  cases r
  cases s
  exact congrArg mk ht

end Registry

/-- The registry of a configuration is begun as the configuration says and extended once. -/
theorem Config.registry_eq_run (c : Config) :
    c.registry = Registry.run (if c.useDefaultRegistry then .library else .empty)
      [.extend c.knownImmutable] := by
  rw [registry]
  cases c.useDefaultRegistry <;> rfl

namespace Registry

/-- After every history a registry knows the names that it was begun with and those that have been
    registered, also later on, and the next name that is registered is new exactly if it is none of
    them. It lists them in the order of their UTF-8 bytes and counts them, each once. Nothing else of
    the history is left: other histories with the same names lead to the same registry. The registry of
    a configuration has such a history, so it knows the library types, unless the configuration forgoes
    them, and the types of the configuration, in whatever order and however often they stand there. -/
theorem run_registered (seed : Seed) (steps : List Step) :
    let r := run seed steps
    let ids := registered seed steps
    -- names
    (∀ id, r.contains id = true ↔ id ∈ seed.ids ∨ ∃ step ∈ steps, id ∈ step.ids) ∧
    (∀ more id, r.contains id = true → (run seed (steps ++ more)).contains id = true) ∧
    (∀ id, ((r.register id).1 = true ↔ r.contains id = false) ∧
      ((r.register id).1 = true ↔ id ∉ ids)) ∧
    -- listing
    (r.toList.Pairwise fun a b => a.toUTF8.toList < b.toUTF8.toList) ∧
    (∀ id, id ∈ r.toList ↔ r.contains id = true) ∧
    r.size = r.toList.length ∧ r.size = ids.toFinset.card ∧ (r.isEmpty = true ↔ r.size = 0) ∧
    -- other histories
    (∀ seed' steps', (∀ id, id ∈ registered seed' steps' ↔ id ∈ ids) → run seed' steps' = r) ∧
    -- configurations
    ∀ c : Config,
      c.registry = run (if c.useDefaultRegistry then .library else .empty)
        [.extend c.knownImmutable] ∧
      (∀ id, c.registry.contains id = true ↔
        c.useDefaultRegistry = true ∧ id ∈ libraryTypes ∨ id ∈ c.knownImmutable) ∧
      ∀ c' : Config, c'.useDefaultRegistry = c.useDefaultRegistry →
        (∀ id, id ∈ c'.knownImmutable ↔ id ∈ c.knownImmutable) → c'.registry = c.registry := by
  intro r ids
  have hr : ∀ id, r.contains id = true ↔ id ∈ ids := contains_run seed steps
  have hc (c : Config) (id : String) : c.registry.contains id = true ↔
      c.useDefaultRegistry = true ∧ id ∈ libraryTypes ∨ id ∈ c.knownImmutable := by
    rw [c.registry_eq_run, contains_run, registered, List.mem_append]
    cases c.useDefaultRegistry <;> simp [Seed.ids, Step.ids]
  refine ⟨?_, ?_, ?_, r.toList_increasing, fun _ => mem_toList, rfl, size_eq_card hr, isEmpty_iff,
    ?_, fun c => ⟨c.registry_eq_run, hc c, ?_⟩⟩
  · intro id
    rw [hr]
    simp [ids, registered]
  · intro more id hid
    rw [run_append, contains_foldl]
    exact Or.inl hid
  · intro id
    have hn : (r.register id).1 = true ↔ r.contains id = false := by simp [register]
    rw [← hr, Bool.not_eq_true]
    exact ⟨hn, hn⟩
  · intro seed' steps' h
    refine eq_of_contains_iff fun id => ?_
    rw [contains_run, h, hr]
  · intro c' hd hk
    refine eq_of_contains_iff fun id => ?_
    rw [hc, hc, hd, hk]

/-- Names that come again, and one that stands among the library types already. -/
theorem run_registered_again :
    let steps : List Step := [.extend ["b.Point", "java.lang.Byte"], .register "a.Shape"]
    let steps' : List Step := [.insert "a.Shape", .register "b.Point", .register "a.Shape"]
    (∀ id, id ∈ registered .library steps' ↔ id ∈ registered .library steps) ∧
      run .library steps' = run .library steps ∧ (run .library steps).size = 11 := by
  intro steps steps'
  have hsame : ∀ id, id ∈ registered .library steps' ↔ id ∈ registered .library steps := by
    intro id
    simp only [registered, Seed.ids, libraryTypes, steps, steps', Step.ids, List.flatMap_cons,
      List.flatMap_nil, List.mem_append, List.mem_cons, List.not_mem_nil]
    tauto
  obtain ⟨-, -, -, -, -, -, hs, -, hr, -⟩ := run_registered .library steps
  exact ⟨hsame, hr .library steps' hsame, hs.trans (by decide)⟩

end Registry

end Immutability
