import Immutability.Keyed
import Mathlib.Data.List.Nodup
import Mathlib.Data.String.Basic

/-! What a table from texts to values holds.

    An entry stands in a table exactly if it is what the table gives for its key. Since keys are
    strictly increasing, tables that give the same for every key are the same. Of the entries that a
    table receives for a key it keeps the last, so a table of distinct keys does not depend on their
    order. -/

namespace Immutability

/-- Where no key comes twice, a lookup finds what stands beside the key. -/
theorem lookup_eq_some_iff {α : Type} {entries : List (String × α)}
    (h : (entries.map (·.1)).Nodup) {key : String} {value : α} :
    entries.lookup key = some value ↔ (key, value) ∈ entries := by
  induction entries with
  | nil => simp
  | cons e entries ih =>
    obtain ⟨k, v⟩ := e
    obtain ⟨hk, ht⟩ := List.nodup_cons.1 h
    rw [List.lookup_cons, List.mem_cons, Prod.mk.injEq]
    by_cases hkey : key = k
    · -- no later entry has the key
      subst hkey
      have hn : (key, value) ∉ entries := fun hm => hk (List.mem_map.2 ⟨_, hm, rfl⟩)
      simp [hn, eq_comm]
    · simp [beq_false_of_ne hkey, hkey, ih ht]

namespace Keyed

variable {α : Type}

theorem keys_increasing (t : Keyed α) : t.keys.Pairwise (· < ·) :=
  List.pairwise_map.2 t.increasing

theorem keys_nodup (t : Keyed α) : t.keys.Nodup :=
  t.keys_increasing.imp ne_of_lt

theorem entries_nodup (t : Keyed α) : t.entries.Nodup :=
  .of_map _ t.keys_nodup

theorem get?_eq_some_iff {t : Keyed α} {key : String} {value : α} :
    t.get? key = some value ↔ (key, value) ∈ t.entries :=
  lookup_eq_some_iff t.keys_nodup

theorem mem_keys_iff {t : Keyed α} {key : String} : key ∈ t.keys ↔ (t.get? key).isSome := by
  rw [Option.isSome_iff_exists]
  simp [keys, get?_eq_some_iff]

/-- Tables that give the same for every key are the same. -/
theorem eq_of_get?_eq {t u : Keyed α} (h : ∀ key, t.get? key = u.get? key) : t = u := by
  have hp : t.entries.Perm u.entries := by
    refine (List.perm_ext_iff_of_nodup t.entries_nodup u.entries_nodup).2 ?_
    rintro ⟨key, value⟩
    rw [← get?_eq_some_iff, ← get?_eq_some_iff, h]
  have he : t.entries = u.entries :=
    hp.eq_of_pairwise (fun a b _ _ hab hba => absurd hab (lt_asymm hba)) t.increasing u.increasing
  cases t
  cases u
  cases he
  rfl

/-! ### Receiving entries -/

/-- The table after it has received some entries one after the other, each by a `put`. -/
def receive (table : Keyed α) (entries : List (String × α)) : Keyed α :=
  entries.foldl (fun t (key, value) => t.put key value) table

/-- Of a key the table holds the entry that it received last. -/
theorem get?_receive (table : Keyed α) (entries : List (String × α)) (key : String) :
    (table.receive entries).get? key = (entries.reverse.lookup key).or (table.get? key) := by
  induction entries generalizing table with
  | nil => rfl
  | cons e entries ih =>
    obtain ⟨k, value⟩ := e
    have hr : table.receive ((k, value) :: entries) = (table.put k value).receive entries := rfl
    rw [hr, ih, get?_put, List.reverse_cons, List.lookup_append, Option.or_assoc,
      List.lookup_cons, List.lookup_nil]
    by_cases hk : key = k
    · simp [hk]
    · simp [hk, beq_false_of_ne hk]

/-- A table receives its own entries in any order. -/
theorem ofList_of_perm {t : Keyed α} {pairs : List (String × α)} (h : pairs.Perm t.entries) :
    ofList pairs = t := by
  have hn : (pairs.reverse.map (·.1)).Nodup :=
    (((List.reverse_perm pairs).trans h).map Prod.fst).nodup_iff.2 t.keys_nodup
  refine eq_of_get?_eq fun key => ?_
  have hr : ofList pairs = empty.receive pairs := rfl
  rw [hr, get?_receive, get?_empty, Option.or_none]
  ext value
  rw [lookup_eq_some_iff hn, List.mem_reverse, h.mem_iff, get?_eq_some_iff]

end Keyed

end Immutability
