import Immutability.Keyed

/-! The registry of types that are known to be immutable.

    Types are registered by their qualified names and never removed. The registry is a set: it does not
    remember in which order or how often a name was registered, and it lists its names in the order of
    their UTF-8 bytes. -/

namespace Immutability

/-- The names of the types known to be immutable. -/
structure Registry where
  table : Keyed Unit
  deriving DecidableEq

namespace Registry

/-- No type is known to be immutable. -/
def empty : Registry := ⟨.empty⟩

/-- The type of this name is known to be immutable. -/
def contains (r : Registry) (id : String) : Bool := (r.table.get? id).isSome

/-- The registry in which this name is known, too. -/
def insert (r : Registry) (id : String) : Registry := ⟨r.table.put id ()⟩

/-- Registers a name and tells whether it was new. -/
def register (r : Registry) (id : String) : Bool × Registry := (!r.contains id, r.insert id)

/-- Registers the names of a list one after the other. -/
def extend (r : Registry) (ids : List String) : Registry := ids.foldl insert r

/-- The registered names in increasing order. -/
def toList (r : Registry) : List String := r.table.keys

/-- The number of registered names. -/
def size (r : Registry) : Nat := r.toList.length

/-- No name is registered. -/
def isEmpty (r : Registry) : Bool := r.toList.isEmpty

/-- The library types that are immutable: texts and boxed primitive values. -/
def libraryTypes : List String :=
  ["java.lang.String", "java.lang.Boolean", "java.lang.Byte", "java.lang.Character",
    "java.lang.Short", "java.lang.Integer", "java.lang.Long", "java.lang.Float",
    "java.lang.Double"]

/-- The registry of the immutable library types. -/
def library : Registry := empty.extend libraryTypes

@[simp] theorem contains_empty (id : String) : empty.contains id = false := rfl

@[simp] theorem contains_insert (r : Registry) (id other : String) :
    (r.insert id).contains other = (decide (other = id) || r.contains other) := by
  by_cases h : other = id <;> simp [contains, insert, h]

/-- Extending a registry adds the names of the list and nothing else. -/
@[simp] theorem contains_extend (r : Registry) (ids : List String) (id : String) :
    (r.extend ids).contains id = (decide (id ∈ ids) || r.contains id) := by
  induction ids generalizing r with
  | nil => simp [extend]
  | cons i ids ih =>
    simp only [extend, List.foldl_cons] at ih ⊢
    rw [ih]
    by_cases h : id = i <;> simp [h]

end Registry

end Immutability
