import Immutability.Json.Read
import Immutability.Proofs.Json.Spelling
import Immutability.Proofs.Reading.Record

/-! Readers that give back what has been written.

    A reader of a container gives back what was written if the readers of its contents do, so a
    reader of a record is right as soon as the readers of its members are. Members may be left out
    where the reader fills in the same value. -/

namespace Immutability.Json

/-- The value is written with integers only and read as `a`. -/
structure ReadAs {α : Type} (v : Json) (read : Tree → Except Fault α) (a : α) : Prop where
  integral : v.integral = true
  read_tree : read v.tree = .ok a

namespace ReadAs

variable {α β : Type} {v : Json} {read : Tree → Except Fault α} {a : α}

/-- The text on one line is read as the value was. -/
theorem read_compact (h : v.ReadAs read a) : (Source.ofText v.compact).read read = .ok a := by
  rw [(written_compact h.integral).ofText_eq, Source.read, h.read_tree]
  rfl

/-- The text on indented lines is read as the value was. -/
theorem read_indented (h : v.ReadAs read a) : (Source.ofText v.indented).read read = .ok a := by
  rw [(written_indented h.integral).ofText_eq, Source.read, h.read_tree]
  rfl

/-- The value of a text is the only one that is written so. -/
theorem eq_of_compact_eq {w : Json} {b : α} (h : v.ReadAs read a) (h' : w.ReadAs read b)
    (he : v.compact = w.compact) : a = b := by
  have hv := h.read_compact
  rw [he, h'.read_compact] at hv
  exact (Except.ok.inj hv).symm

/-! ### Scalars -/

theorem text (s : String) : (Json.text s).ReadAs Read.text s := ⟨rfl, rfl⟩

theorem boolean (b : Bool) : (Json.boolean b).ReadAs Read.boolean b := ⟨rfl, rfl⟩

/-- Natural numbers of up to 64 bits are read exactly. -/
theorem natural {n bound : Nat} (h : n < bound) (hb : bound ≤ UInt64.size) (wanted : String) :
    (Json.integer n).ReadAs (Read.natural bound wanted) n := by
  have hv : (Numeral.ofInt n).value = some (.integer n) := value_ofInt (by omega) (by omega)
  have hn : (0 : Int) ≤ n ∧ (n : Int) < bound := by omega
  refine ⟨rfl, ?_⟩
  simp only [tree, Read.natural, hv, if_pos hn, Int.toNat_natCast]

theorem map {f : α → β} (h : v.ReadAs read a) : v.ReadAs (fun t => (read t).map f) (f a) :=
  ⟨h.integral, by rw [h.read_tree]; rfl⟩

/-- Only nothing is read as absent. -/
theorem present (h : v.ReadAs read a) (hv : v.tree ≠ .null) :
    v.ReadAs (Read.option read) (some a) := by
  refine ⟨h.integral, ?_⟩
  rw [Read.option, h.read_tree]
  · rfl
  · exact hv

theorem absent : Json.null.ReadAs (Read.option read) none := ⟨rfl, rfl⟩

/-! ### Containers -/

theorem items {write : α → Json} {as : List α} (h : ∀ a ∈ as, (write a).ReadAs read a) :
    integralItems (as.map write) = true ∧
      readAll read (treeItems (as.map write)) = .ok as := by
  induction as with
  | nil => exact ⟨rfl, rfl⟩
  | cons a as ih =>
    obtain ⟨ha, has⟩ := List.forall_mem_cons.1 h
    obtain ⟨hv, hr⟩ := ih has
    refine ⟨?_, ?_⟩
    · rw [List.map_cons, integralItems, ha.integral, hv, Bool.and_true]
    · rw [List.map_cons, treeItems, readAll, ha.read_tree]
      simp only [hr]
      rfl

/-- A list is read item by item. -/
theorem list {write : α → Json} {as : List α} (h : ∀ a ∈ as, (write a).ReadAs read a) :
    (Json.sequence (as.map write)).ReadAs (Read.list read) as := by
  obtain ⟨hv, hr⟩ := items h
  refine ⟨hv, ?_⟩
  simp only [tree, Read.list, hr, if_true]

end ReadAs

/-! ### Records -/

/-- The members of a table with these keys. -/
def keyed (pairs : List (String × Tree)) : List (Option String × Tree) :=
  pairs.map fun p => (some p.1, p.2)

/-- The keys of a table are read as they were written. -/
theorem spelled_keyed (pairs : List (String × Tree)) :
    Read.spelled (keyed pairs) = (pairs, true) := by
  induction pairs with
  | nil => rfl
  | cons p pairs ih => rw [keyed, List.map_cons, ← keyed, Read.spelled, ih]

theorem treeMembers_eq_keyed (pairs : List (String × Json)) :
    treeMembers pairs = keyed (pairs.map fun p => (p.1, p.2.tree)) := by
  induction pairs with
  | nil => rfl
  | cons p pairs ih => rw [treeMembers, ih]; rfl

/-- A table is read as a record if every member gets its value and the other keys can be passed
    over. -/
theorem record_keyed {αs : List Type} {members : Members Tree αs} (hn : members.keys.Nodup)
    {pairs : List (String × Tree)} {values : Values αs}
    (h : members.Settle (Slots.empty αs) pairs values)
    (hs : ∀ p ∈ pairs, p.1 ∉ members.keys → Read.skip p.2 = .ok ()) (name : String) :
    Read.record name members (.table (keyed pairs) true) = .ok values := by
  obtain ⟨filled, hp, hc⟩ := (Members.putAll_close hn).2 ⟨h, hs⟩
  rw [Read.record, spelled_keyed]
  simp only [hp, hc, Bool.and_self, if_true]

/-- The pairs are written for the members of a record in declared order. A member is left out only
    if the reader fills in its value. -/
inductive Writes : {αs : List Type} → Members Tree αs → List (String × Json) → Values αs → Prop
  | done : Writes .none [] ()
  | also {α : Type} {αs : List Type} {member : Member Tree α} {others : Members Tree αs} {v : Json}
      {a : α} {pairs : List (String × Json)} {values : Values αs}
      (h : v.ReadAs member.read a) (hs : Writes others pairs values) :
      Writes (.also member others) ((member.key, v) :: pairs) (a, values)
  | omitted {α : Type} {αs : List Type} {member : Member Tree α} {others : Members Tree αs} {a : α}
      {pairs : List (String × Json)} {values : Values αs}
      (h : member.omitted = some a) (hs : Writes others pairs values) :
      Writes (.also member others) pairs (a, values)

namespace Writes

variable {αs : List Type} {members : Members Tree αs} {pairs : List (String × Json)}
  {values : Values αs}

theorem integral (h : Writes members pairs values) : integralMembers pairs = true := by
  induction h with
  | done => rfl
  | also h hs ih => rw [integralMembers, h.integral, ih, Bool.and_true]
  | omitted h hs ih => exact ih

/-- Only keys of members are written. -/
theorem key_mem (h : Writes members pairs values) : ∀ p ∈ pairs, p.1 ∈ members.keys := by
  induction h with
  | done => simp
  | also h hs ih =>
    refine List.forall_mem_cons.2 ⟨List.mem_cons_self .., ?_⟩
    exact fun p hp => List.mem_cons_of_mem _ (ih p hp)
  | omitted h hs ih => exact fun p hp => List.mem_cons_of_mem _ (ih p hp)

theorem forall_ne (h : Writes members pairs values) {key : String} (hk : key ∉ members.keys) :
    ∀ p ∈ pairs.map fun p => (p.1, p.2.tree), key ≠ p.1 := by
  rintro _ hm rfl
  obtain ⟨p, hp, rfl⟩ := List.mem_map.1 hm
  exact hk (h.key_mem p hp)

/-- Every member ends up with the value that was written. -/
theorem settle (h : Writes members pairs values) (hn : members.keys.Nodup) :
    members.Settle (Slots.empty αs) (pairs.map fun p => (p.1, p.2.tree)) values := by
  induction h with
  | done => trivial
  | @also α αs member others v a pairs values h hs ih =>
    obtain ⟨hm, hn⟩ := List.nodup_cons.1 hn
    refine ⟨?_, (Members.settle_cons_of_notMem hm).2 (ih hn)⟩
    have hs : member.settle (some a) (pairs.map fun p => (p.1, p.2.tree)) = some a :=
      Member.settle_of_forall_ne (hs.forall_ne hm)
    simp [Member.settle, h.read_tree, Except.toOption, hs]
  | @omitted α αs member others a pairs values h hs ih =>
    obtain ⟨hm, hn⟩ := List.nodup_cons.1 hn
    exact ⟨(Member.settle_of_forall_ne (hs.forall_ne hm)).trans h, ih hn⟩

/-- A table is read as the record whose members were written. -/
theorem readAs (h : Writes members pairs values) (hn : members.keys.Nodup) (name : String) :
    (Json.table pairs).ReadAs (Read.record name members) values := by
  refine ⟨h.integral, ?_⟩
  rw [tree, treeMembers_eq_keyed]
  refine record_keyed hn (h.settle hn) ?_ name
  rintro p hp hk
  exact absurd rfl (h.forall_ne hk p hp)

end Writes

/-! ### Records that have been read -/

/-- A refusal gives no value. -/
theorem mismatch_ne_ok {α : Type} {wanted : String} {t : Tree} {a : α} :
    Read.mismatch wanted t ≠ .ok a := by
  intro h
  cases t with
  | numeral n =>
    rw [Read.mismatch] at h
    split at h <;> cases h
  | _ => cases h

/-- A number that is read is below the bound. -/
theorem lt_of_natural {bound n : Nat} {wanted : String} {t : Tree}
    (h : Read.natural bound wanted t = .ok n) : n < bound := by
  cases t with
  | numeral m =>
    rw [Read.natural] at h
    split at h
    · split at h
      · cases h
        omega
      · cases h
    · cases h
    · cases h
  | _ => cases h

/-- Whatever the form of a record, its values have been read for its members, or stand for them. -/
theorem gives_of_record {αs : List Type} {members : Members Tree αs} (hn : members.keys.Nodup)
    {name : String} {t : Tree} {values : Values αs}
    (h : Read.record name members t = .ok values) : members.Gives values := by
  rw [Read.record.eq_def] at h
  split at h
  · rename_i written closed
    obtain ⟨pairs, all⟩ := Read.spelled written
    simp only at h
    split at h
    · cases h
    · rename_i slots hp
      split at h
      · exact Members.gives_of_settle ((Members.putAll_close hn).1 ⟨slots, hp, h⟩).1
      · cases h
  · simp only at h
    split at h
    · cases h
    · rename_i ht
      split at h
      · cases h
        exact Members.gives_of_take ht
      · cases h
  · exact absurd h mismatch_ne_ok

end Immutability.Json
