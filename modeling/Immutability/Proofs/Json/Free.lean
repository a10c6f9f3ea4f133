import Immutability.Json.Read
import Immutability.Proofs.Json.Spelling
import Mathlib.Algebra.Group.Int.Defs

/-! Free-form values read again.

    A free-form value has integers of 64 bits only, and the members of its tables stand in the order
    of their keys (`Regular`). Such a value is read as it was written if its containers are nested no
    deeper than the reader allows, and everything that the reader gives is such a value. -/

namespace Immutability.Json

/-! ### Sorted members -/

/-- A key after all others goes to the end. -/
theorem putSorted_of_forall_lt {α : Type} {key : String} {value : α} {entries : List (String × α)}
    (h : ∀ e ∈ entries, e.1 < key) : putSorted key value entries = entries ++ [(key, value)] := by
  induction entries with
  | nil => rfl
  | cons e entries ih =>
    obtain ⟨k, v⟩ := e
    obtain ⟨hk, h⟩ := List.forall_mem_cons.1 h
    have hlt : ¬ key < k := fun hlt => String.lt_irrefl _ (String.lt_trans hk hlt)
    have hne : key ≠ k := fun he => String.lt_irrefl _ (he ▸ hk)
    rw [putSorted, if_neg hlt, if_neg hne, ih h, List.cons_append]

theorem foldl_putSorted_of_increasing {members done : List (String × Json)}
    (h : (done ++ members).Pairwise fun a b => a.1 < b.1) :
    members.foldl (fun table (key, value) => putSorted key value table) done = done ++ members := by
  induction members generalizing done with
  | nil => simp
  | cons m members ih =>
    obtain ⟨key, value⟩ := m
    have hlt : ∀ e ∈ done, e.1 < key := fun e he =>
      (List.pairwise_append.1 h).2.2 e he _ (List.mem_cons_self ..)
    have hd : (done ++ [(key, value)] ++ members).Pairwise fun a b => a.1 < b.1 := by
      rwa [List.append_assoc]
    simp only [List.foldl_cons, putSorted_of_forall_lt hlt]
    rw [ih hd, List.append_assoc, List.singleton_append]

/-- Sorting changes nothing where the keys increase already. -/
theorem sorted_of_increasing {members : List (String × Json)}
    (h : members.Pairwise fun a b => a.1 < b.1) : sorted members = members :=
  foldl_putSorted_of_increasing (by simpa using h)

theorem foldl_putSorted_increasing (members : List (String × Json)) {done : List (String × Json)}
    (h : done.Pairwise fun a b => a.1 < b.1) :
    (members.foldl (fun table (key, value) => putSorted key value table) done).Pairwise
      fun a b => a.1 < b.1 := by
  induction members generalizing done with
  | nil => exact h
  | cons m members ih => exact ih (putSorted_increasing m.1 m.2 h)

theorem sorted_increasing (members : List (String × Json)) :
    (sorted members).Pairwise fun a b => a.1 < b.1 :=
  foldl_putSorted_increasing members .nil

theorem mem_foldl_putSorted {members done : List (String × Json)} {p : String × Json}
    (h : p ∈ members.foldl (fun table (key, value) => putSorted key value table) done) :
    p ∈ done ∨ p ∈ members := by
  induction members generalizing done with
  | nil => exact Or.inl h
  | cons m members ih =>
    rcases ih h with hp | hp
    · rcases mem_putSorted hp with rfl | hp
      · exact Or.inr (List.mem_cons_self ..)
      · exact Or.inl hp
    · exact Or.inr (List.mem_cons_of_mem _ hp)

/-- Sorting adds no member. -/
theorem mem_of_mem_sorted {members : List (String × Json)} {p : String × Json}
    (h : p ∈ sorted members) : p ∈ members :=
  (mem_foldl_putSorted h).resolve_left List.not_mem_nil

/-! ### Regular values and their depth -/

mutual

/-- The integers of the value fit into 64 bits, and the keys of its tables increase. -/
def Regular : Json → Prop
  | .integer i => -2 ^ 63 ≤ i ∧ i < 2 ^ 64
  | .sequence items => RegularItems items
  | .table members => (members.Pairwise fun a b => a.1 < b.1) ∧ RegularMembers members
  | _ => True

/-- All items are regular. -/
def RegularItems : List Json → Prop
  | [] => True
  | v :: vs => Regular v ∧ RegularItems vs

/-- All members are regular. -/
def RegularMembers : List (String × Json) → Prop
  | [] => True
  | (_, v) :: members => Regular v ∧ RegularMembers members

end

mutual

/-- How deep the containers of the value are nested. -/
def depth : Json → Nat
  | .sequence items => depthItems items + 1
  | .table members => depthMembers members + 1
  | _ => 0

/-- The depth of the deepest item. -/
def depthItems : List Json → Nat
  | [] => 0
  | v :: vs => max (depth v) (depthItems vs)

/-- The depth of the deepest member. -/
def depthMembers : List (String × Json) → Nat
  | [] => 0
  | (_, v) :: members => max (depth v) (depthMembers members)

end

theorem regularMembers_iff {members : List (String × Json)} :
    RegularMembers members ↔ ∀ p ∈ members, p.2.Regular := by
  induction members with
  | nil => simp [RegularMembers]
  | cons m members ih => simp [RegularMembers, ih]

theorem depthMembers_le_iff {members : List (String × Json)} {d : Nat} :
    depthMembers members ≤ d ↔ ∀ p ∈ members, p.2.depth ≤ d := by
  induction members with
  | nil => simp [depthMembers]
  | cons m members ih => rw [depthMembers, Nat.max_le, ih, List.forall_mem_cons]

/-! ### Written values are read -/

mutual

/-- A regular value is read as it was written, if the reader goes down far enough. -/
theorem free?_tree : ∀ v : Json, v.integral = true → v.Regular → ∀ {d : Nat}, v.depth ≤ d →
    Read.free? d v.tree = some v
  | .null, _, _, _, _ => rfl
  | .boolean _, _, _, _, _ => rfl
  | .text _, _, _, _, _ => rfl
  | .decimal _, hv, _, _, _ => by cases hv
  | .integer i, _, hr, _, _ => by
    have hn : (Numeral.ofInt i).value = some (.integer i) :=
      value_ofInt (by simpa [UInt64.size] using hr.1) (by simpa [UInt64.size] using hr.2)
    rw [tree, Read.free?, hn]
  | .sequence items, hv, hr, d, hd => by
    obtain ⟨d, rfl⟩ := Nat.exists_eq_add_one.2 (Nat.lt_of_lt_of_le (Nat.succ_pos _) hd)
    have hi := freeItems?_treeItems items hv hr (Nat.le_of_succ_le_succ hd)
    simp [tree, Read.free?, hi]
  | .table members, hv, hr, d, hd => by
    obtain ⟨d, rfl⟩ := Nat.exists_eq_add_one.2 (Nat.lt_of_lt_of_le (Nat.succ_pos _) hd)
    have hm := freeMembers?_treeMembers members hv hr.2 (Nat.le_of_succ_le_succ hd)
    simp [tree, Read.free?, hm, sorted_of_increasing hr.1]

theorem freeItems?_treeItems : ∀ vs : List Json, integralItems vs = true → RegularItems vs →
    ∀ {d : Nat}, depthItems vs ≤ d → Read.freeItems? d (treeItems vs) = some vs
  | [], _, _, _, _ => rfl
  | v :: vs, hv, hr, d, hd => by
    obtain ⟨hv, hvs⟩ : v.integral = true ∧ integralItems vs = true := by
      simpa [integralItems] using hv
    obtain ⟨hd, hds⟩ := Nat.max_le.1 hd
    rw [treeItems, Read.freeItems?, free?_tree v hv hr.1 hd, freeItems?_treeItems vs hvs hr.2 hds]

theorem freeMembers?_treeMembers : ∀ ms : List (String × Json), integralMembers ms = true →
    RegularMembers ms → ∀ {d : Nat}, depthMembers ms ≤ d →
      Read.freeMembers? d (treeMembers ms) = some ms
  | [], _, _, _, _ => rfl
  | (key, v) :: ms, hv, hr, d, hd => by
    obtain ⟨hv, hvs⟩ : v.integral = true ∧ integralMembers ms = true := by
      simpa [integralMembers] using hv
    obtain ⟨hd, hds⟩ := Nat.max_le.1 hd
    rw [treeMembers, Read.freeMembers?, free?_tree v hv hr.1 hd,
      freeMembers?_treeMembers ms hvs hr.2 hds]

end

/-! ### Values that are read are regular -/

theorem gather_lt {n m : Nat} {ds more : List Nat} (hn : n < UInt64.size)
    (h : gather n ds = (m, more)) : m < UInt64.size := by
  induction ds generalizing n with
  | nil =>
    cases h
    exact hn
  | cons d ds ih =>
    rw [gather] at h
    split at h
    · exact ih ‹_› h
    · cases h
      exact hn

/-- An integer that is read fits into 64 bits. -/
theorem bounds_of_value {n : Numeral} {i : Int} (h : n.value = some (.integer i)) :
    -2 ^ 63 ≤ i ∧ i < 2 ^ 64 := by
  have hscaled : ∀ m e, n.scaled m e ≠ some (.integer i) := by
    intro m e
    unfold Numeral.scaled
    split <;> simp
  unfold Numeral.value at h
  split at h
  · rename_i m hg _ _
    have hm := gather_lt (by decide) hg
    simp only [UInt64.size] at hm h
    split at h
    · cases h
      omega
    · split at h
      · cases h
        omega
      · exact absurd h (hscaled _ _)
  · exact absurd h (hscaled _ _)

/-- Only nothing is read as nothing. -/
theorem eq_null_of_free? {d : Nat} {t : Tree} (h : Read.free? d t = some .null) : t = .null := by
  cases t with
  | null => rfl
  | numeral n =>
    rw [Read.free?] at h
    split at h <;> simp at h
  | sequence ts closed =>
    rw [Read.free?] at h
    split at h <;> simp at h
  | table ms closed =>
    rw [Read.free?] at h
    split at h <;> simp at h
  | _ => cases h

mutual

/-- A value that is read is regular, and its containers are nested no deeper than allowed. -/
theorem regular_of_free? : ∀ (t : Tree) {d : Nat} {v : Json}, Read.free? d t = some v →
    v.Regular ∧ v.depth ≤ d
  | .null, _, _, h => by
    cases h
    exact ⟨trivial, Nat.zero_le _⟩
  | .boolean _, _, _, h => by
    cases h
    exact ⟨trivial, Nat.zero_le _⟩
  | .text _, _, _, h => by
    cases h
    exact ⟨trivial, Nat.zero_le _⟩
  | .unpaired, _, _, h => by cases h
  | .broken, _, _, h => by cases h
  | .numeral n, d, v, h => by
    rw [Read.free?] at h
    split at h
    · rename_i i hi
      cases h
      exact ⟨bounds_of_value hi, Nat.zero_le _⟩
    · cases h
      exact ⟨trivial, Nat.zero_le _⟩
    · cases h
  | .sequence ts closed, d, v, h => by
    rw [Read.free?] at h
    split at h
    · rename_i hc
      obtain ⟨vs, hvs, rfl⟩ := Option.map_eq_some_iff.1 h
      obtain ⟨hr, hd⟩ := regular_of_freeItems? ts hvs
      have hpos : 0 < d := by simp_all
      refine ⟨hr, ?_⟩
      rw [depth]
      omega
    · cases h
  | .table ms closed, d, v, h => by
    rw [Read.free?] at h
    split at h
    · rename_i hc
      obtain ⟨vs, hvs, rfl⟩ := Option.map_eq_some_iff.1 h
      have hall := regular_of_freeMembers? ms hvs
      have hpos : 0 < d := by simp_all
      have hr : RegularMembers (sorted vs) :=
        regularMembers_iff.2 fun p hp => (hall p (mem_of_mem_sorted hp)).1
      have hd : depthMembers (sorted vs) ≤ d - 1 :=
        depthMembers_le_iff.2 fun p hp => (hall p (mem_of_mem_sorted hp)).2
      refine ⟨⟨sorted_increasing vs, hr⟩, ?_⟩
      rw [depth]
      omega
    · cases h

theorem regular_of_freeItems? : ∀ (ts : List Tree) {d : Nat} {vs : List Json},
    Read.freeItems? d ts = some vs → RegularItems vs ∧ depthItems vs ≤ d
  | [], _, _, h => by
    cases h
    exact ⟨trivial, Nat.zero_le _⟩
  | t :: ts, d, vs, h => by
    rw [Read.freeItems?] at h
    split at h
    · rename_i v vs' hv hvs
      cases h
      obtain ⟨hr, hd⟩ := regular_of_free? t hv
      obtain ⟨hrs, hds⟩ := regular_of_freeItems? ts hvs
      exact ⟨⟨hr, hrs⟩, Nat.max_le.2 ⟨hd, hds⟩⟩
    · cases h

theorem regular_of_freeMembers? : ∀ (ms : List (Option String × Tree)) {d : Nat}
    {vs : List (String × Json)}, Read.freeMembers? d ms = some vs →
      ∀ p ∈ vs, p.2.Regular ∧ p.2.depth ≤ d
  | [], _, _, h => by
    cases h
    exact nofun
  | (none, _) :: _, _, _, h => by cases h
  | (some key, t) :: ms, d, vs, h => by
    rw [Read.freeMembers?] at h
    split at h
    · rename_i v vs' hv hvs
      cases h
      exact List.forall_mem_cons.2 ⟨regular_of_free? t hv, regular_of_freeMembers? ms hvs⟩
    · cases h

end

end Immutability.Json
