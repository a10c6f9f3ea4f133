import Immutability.Graph

/-! What an insertion does to a graph.

    A declaration goes in as a whole or not at all: its name has to be free, its fields have to have
    names of their own, and no field may claim another owner. What goes in is the declaration with
    its fields stamped. -/

namespace Immutability

/-- A list whose members all stay as they are stays as it is. -/
theorem map_eq_self {α : Type} {f : α → α} {l : List α} (h : ∀ x ∈ l, f x = x) : l.map f = l :=
  (List.map_congr_left (g := id) h).trans (List.map_id l)

/-- The field as a type of the given name owns it. -/
def FieldDeclaration.ownedBy (owner : String) (f : FieldDeclaration) : FieldDeclaration :=
  { f with owner := owner }

namespace TypeDeclaration

/-- The type with all its fields owned by it. -/
def stamped (t : TypeDeclaration) : TypeDeclaration :=
  { t with fields := t.fields.map (FieldDeclaration.ownedBy t.name) }

/-- The fields have names of their own, and none claims another owner. -/
structure Acceptable (t : TypeDeclaration) : Prop where
  distinct : (t.fields.map (·.name)).Nodup
  unclaimed : ∀ f ∈ t.fields, f.owner = "" ∨ f.owner = t.name

instance (t : TypeDeclaration) : Decidable t.Acceptable :=
  decidable_of_iff ((t.fields.map (·.name)).Nodup ∧
      ∀ f ∈ t.fields, f.owner = "" ∨ f.owner = t.name)
    ⟨fun h => ⟨h.1, h.2⟩, fun h => ⟨h.distinct, h.unclaimed⟩⟩

/-- The fields have names of their own, and each knows that the type owns it. -/
structure Owned (t : TypeDeclaration) : Prop where
  distinct : (t.fields.map (·.name)).Nodup
  owner_eq : ∀ f ∈ t.fields, f.owner = t.name

@[simp] theorem name_stamped (t : TypeDeclaration) : t.stamped.name = t.name := rfl

@[simp] theorem map_name_fields_stamped (t : TypeDeclaration) :
    t.stamped.fields.map (·.name) = t.fields.map (·.name) := by
  simp [stamped, FieldDeclaration.ownedBy]

theorem Acceptable.owned_stamped {t : TypeDeclaration} (h : t.Acceptable) : t.stamped.Owned := by
  refine ⟨?_, ?_⟩
  · rw [map_name_fields_stamped]
    exact h.distinct
  · rintro f hf
    obtain ⟨f', -, rfl⟩ := List.mem_map.1 hf
    rfl

theorem Owned.acceptable {t : TypeDeclaration} (h : t.Owned) : t.Acceptable :=
  ⟨h.distinct, fun f hf => Or.inr (h.owner_eq f hf)⟩

/-- Stamping again changes nothing. -/
theorem Owned.stamped_eq {t : TypeDeclaration} (h : t.Owned) : t.stamped = t := by
  have hf : t.fields.map (FieldDeclaration.ownedBy t.name) = t.fields :=
    map_eq_self fun f hf => by simp [FieldDeclaration.ownedBy, ← h.owner_eq f hf]
  rw [stamped, hf]

theorem map_stamped_of_owned {ts : List TypeDeclaration} (h : ∀ t ∈ ts, t.Owned) :
    ts.map stamped = ts :=
  map_eq_self fun t ht => (h t ht).stamped_eq

end TypeDeclaration

namespace TypeGraph

/-- The graph with a declaration at its end, entered into the index. -/
def push (g : TypeGraph) (t : TypeDeclaration) : TypeGraph :=
  { g with types := g.types.push t, index := g.index.insert t.name g.types.size }

@[simp] theorem toList_types_push (g : TypeGraph) (t : TypeDeclaration) :
    (g.push t).types.toList = g.types.toList ++ [t] := by simp [push]

theorem stampFields_cons_eq_ok {owner : String} {seen : List String} {f : FieldDeclaration}
    {fs out : List FieldDeclaration} :
    stampFields owner seen (f :: fs) = .ok out ↔
      f.name ∉ seen ∧ (f.owner = "" ∨ f.owner = owner) ∧
        ∃ rest, stampFields owner (f.name :: seen) fs = .ok rest ∧ out = f.ownedBy owner :: rest := by
  rw [stampFields]
  split
  · rename_i hs
    simp [hs]
  · rename_i hs
    split
    · rename_i ho
      cases hr : stampFields owner (f.name :: seen) fs with
      | error e => simp [Except.map]
      | ok rest =>
        constructor
        · rintro ⟨⟩
          exact ⟨hs, ho, rest, rfl, rfl⟩
        · rintro ⟨-, -, rest', ⟨⟩, rfl⟩
          rfl
    · rename_i ho
      simp [ho]

/-- Stamping succeeds exactly on fields with fresh, distinct names that claim no other owner. -/
theorem stampFields_eq_ok {owner : String} {seen : List String} {fs out : List FieldDeclaration} :
    stampFields owner seen fs = .ok out ↔
      (fs.map (·.name)).Nodup ∧ (∀ f ∈ fs, f.name ∉ seen) ∧
        (∀ f ∈ fs, f.owner = "" ∨ f.owner = owner) ∧
        out = fs.map (FieldDeclaration.ownedBy owner) := by
  induction fs generalizing seen out with
  | nil =>
    constructor
    · rintro ⟨⟩
      simp
    · rintro ⟨-, -, -, rfl⟩
      rfl
  | cons f fs ih =>
    rw [stampFields_cons_eq_ok]
    constructor
    · rintro ⟨hs, ho, rest, hr, rfl⟩
      obtain ⟨hn, hseen, hown, rfl⟩ := ih.1 hr
      -- the later names differ from `f.name` because it is among those seen
      have hf : f.name ∉ fs.map (·.name) := by
        rintro hm
        obtain ⟨f', hf', he⟩ := List.mem_map.1 hm
        exact hseen f' hf' (he ▸ List.mem_cons_self ..)
      refine ⟨List.nodup_cons.2 ⟨hf, hn⟩, List.forall_mem_cons.2 ⟨hs, ?_⟩,
        List.forall_mem_cons.2 ⟨ho, hown⟩, rfl⟩
      exact fun f' hf' hm => hseen f' hf' (List.mem_cons_of_mem _ hm)
    · rintro ⟨hn, hseen, hown, rfl⟩
      obtain ⟨hf, hn⟩ := List.nodup_cons.1 hn
      obtain ⟨hs, hseen⟩ := List.forall_mem_cons.1 hseen
      obtain ⟨ho, hown⟩ := List.forall_mem_cons.1 hown
      refine ⟨hs, ho, _, ih.2 ⟨hn, ?_, hown, rfl⟩, rfl⟩
      rintro f' hf' hm
      rcases List.mem_cons.1 hm with he | hm
      · exact hf (List.mem_map.2 ⟨f', hf', he⟩)
      · exact hseen f' hf' hm

/-- An insertion succeeds exactly if the name is free and the fields are acceptable, and adds the
    stamped declaration. -/
theorem insert_eq_ok {g g' : TypeGraph} {t : TypeDeclaration} :
    g.insert t = .ok g' ↔
      g.index.contains t.name = false ∧ t.Acceptable ∧ g' = g.push t.stamped := by
  rw [insert]
  split
  · rename_i hc
    simp [hc]
  · rename_i hc
    rw [Bool.not_eq_true] at hc
    constructor
    · intro h
      cases hs : stampFields t.name [] t.fields with
      | error e => rw [hs] at h; simp [Except.map] at h
      | ok fields =>
        rw [hs] at h
        simp only [Except.map, Except.ok.injEq] at h
        obtain ⟨hn, -, ho, rfl⟩ := stampFields_eq_ok.1 hs
        exact ⟨hc, ⟨hn, ho⟩, h.symm⟩
    · rintro ⟨-, ha, rfl⟩
      have hs : stampFields t.name [] t.fields = .ok t.stamped.fields :=
        stampFields_eq_ok.2 ⟨ha.distinct, by simp, ha.unclaimed, rfl⟩
      rw [hs]
      rfl

end TypeGraph

end Immutability
