/-! Tables from texts to values, sorted by their keys.

    Texts are compared character by character, which is the order of their UTF-8 bytes. Keys are
    strictly increasing, so a table is determined by its look-ups and has one listing. -/

namespace Immutability

/-! ### Sorted lists of pairs -/

/-- Gives a key a value in a list sorted by its keys, in place of any earlier value. -/
def putSorted {α : Type} (key : String) (value : α) : List (String × α) → List (String × α)
  | [] => [(key, value)]
  | (k, v) :: entries =>
    if key < k then (key, value) :: (k, v) :: entries
    else if key = k then (key, value) :: entries
    else (k, v) :: putSorted key value entries

theorem lookup_putSorted {α : Type} (key k : String) (value : α) (entries : List (String × α))
    (h : entries.Pairwise fun a b => a.1 < b.1) :
    (putSorted key value entries).lookup k = if k = key then some value else entries.lookup k := by
  induction entries with
  | nil => simp only [putSorted, List.lookup_cons, List.lookup_nil]; grind
  | cons e entries ih =>
    obtain ⟨k', v'⟩ := e
    obtain ⟨-, ht⟩ := List.pairwise_cons.1 h
    have := ih ht
    simp only [putSorted]
    split
    · simp only [List.lookup_cons]; grind
    · split
      · simp only [List.lookup_cons]; grind
      · simp only [List.lookup_cons, this]; grind

theorem mem_putSorted {α : Type} {key : String} {value : α} {entries : List (String × α)}
    {e : String × α} (h : e ∈ putSorted key value entries) : e = (key, value) ∨ e ∈ entries := by
  induction entries with
  | nil => simpa [putSorted] using h
  | cons e' entries ih =>
    obtain ⟨k', v'⟩ := e'
    simp only [putSorted] at h
    split at h <;> grind

theorem mem_putSorted_key {α : Type} {key : String} {value : α} {entries : List (String × α)}
    {e : String × α} (h : e ∈ putSorted key value entries) : e.1 = key ∨ e ∈ entries :=
  (mem_putSorted h).imp_left (congrArg Prod.fst)

theorem putSorted_increasing {α : Type} (key : String) (value : α) {entries : List (String × α)}
    (h : entries.Pairwise fun a b => a.1 < b.1) :
    (putSorted key value entries).Pairwise fun a b => a.1 < b.1 := by
  induction entries with
  | nil => simp [putSorted]
  | cons e entries ih =>
    obtain ⟨k', v'⟩ := e
    obtain ⟨hh, ht⟩ := List.pairwise_cons.1 h
    simp only [putSorted]
    split
    · refine List.pairwise_cons.2 ⟨?_, h⟩
      rintro e he
      rcases List.mem_cons.1 he with rfl | he
      · assumption
      · have := hh e he; grind
    · split
      · subst_vars
        exact List.pairwise_cons.2 ⟨hh, ht⟩
      · refine List.pairwise_cons.2 ⟨?_, ih ht⟩
        rintro e he
        rcases mem_putSorted_key he with hk | he
        · grind
        · exact hh e he

/-! ### Tables -/

/-- A table from texts to values. -/
structure Keyed (α : Type) where
  entries : List (String × α)
  increasing : entries.Pairwise fun a b => a.1 < b.1

namespace Keyed

variable {α : Type}

instance [DecidableEq α] : DecidableEq (Keyed α) := fun s t =>
  decidable_of_iff (s.entries = t.entries) ⟨fun h => by cases s; cases t; simp_all, fun h => h ▸ rfl⟩

/-- The table without entries. -/
def empty : Keyed α := ⟨[], .nil⟩

/-- The value of a key. -/
def get? (t : Keyed α) (key : String) : Option α := t.entries.lookup key

/-- The table in which a key has the given value. -/
def put (t : Keyed α) (key : String) (value : α) : Keyed α :=
  ⟨putSorted key value t.entries, putSorted_increasing key value t.increasing⟩

/-- The keys in increasing order. -/
def keys (t : Keyed α) : List String := t.entries.map (·.1)

/-- The table of the given pairs; of equal keys the last one counts. -/
def ofList (pairs : List (String × α)) : Keyed α :=
  pairs.foldl (fun t (key, value) => t.put key value) empty

@[simp] theorem get?_empty (k : String) : (empty : Keyed α).get? k = none := rfl

@[simp] theorem get?_put (t : Keyed α) (key k : String) (value : α) :
    (t.put key value).get? k = if k = key then some value else t.get? k :=
  lookup_putSorted key k value t.entries t.increasing

end Keyed

end Immutability
