import Immutability.Reading.Record
import Mathlib.Data.List.Forall2

/-! What reading a record does for each of its members.

    A member takes its value from the pairs with its own key and is not affected by the others. So a
    table is read exactly if every member by itself gets a value and the pairs of all other keys can
    be passed over, and neither the order of the keys nor the other keys count. -/

namespace Immutability

variable {σ α : Type} {αs : List Type}

/-- Values that are read one by one are read as a list. -/
theorem readAll_of_forall₂ {read : σ → Except Fault α} {ss : List σ} {as : List α}
    (h : List.Forall₂ (fun s a => read s = .ok a) ss as) : readAll read ss = .ok as := by
  induction h with
  | nil => rfl
  | cons ha has ih =>
    rw [readAll, ha, ih]
    rfl

theorem readAll_map {read : σ → Except Fault α} {write : α → σ} {as : List α}
    (h : ∀ a ∈ as, read (write a) = .ok a) : readAll read (as.map write) = .ok as :=
  readAll_of_forall₂ (List.forall₂_map_left_iff.2 (List.forall₂_same.2 h))

/-- The value that a member ends up with, if it gets one: read from the only pair with its key,
    unless it has been read before, or else what stands for it. -/
def Member.settle (member : Member σ α) : Option α → List (String × σ) → Option α
  | slot, [] => slot.or member.omitted
  | slot, (key, value) :: pairs =>
    if member.key = key then
      if slot.isSome then none
      else (member.read value).toOption.bind fun a => member.settle (some a) pairs
    else member.settle slot pairs

/-- Without a pair of its own a member keeps what it has, or takes what stands for it. -/
theorem Member.settle_of_forall_ne {member : Member σ α} {slot : Option α}
    {pairs : List (String × σ)} (h : ∀ p ∈ pairs, member.key ≠ p.1) :
    member.settle slot pairs = slot.or member.omitted := by
  induction pairs with
  | nil => rfl
  | cons p pairs ih =>
    obtain ⟨hp, h⟩ := List.forall_mem_cons.1 h
    rw [settle, if_neg hp, ih h]

/-- The values of a key, in the order of the pairs. -/
def under (key : String) (pairs : List (String × σ)) : List σ :=
  (pairs.filter fun p => key = p.1).map (·.2)

theorem under_eq_nil {key : String} {pairs : List (String × σ)} :
    under key pairs = [] ↔ ∀ p ∈ pairs, key ≠ p.1 := by
  simp [under]

theorem under_append (key : String) (pairs more : List (String × σ)) :
    under key (pairs ++ more) = under key pairs ++ under key more := by
  rw [under, under, under, List.filter_append, List.map_append]

/-- A member whose key has one value takes it, wherever it stands. -/
theorem Member.settle_of_under_eq {member : Member σ α} {pairs : List (String × σ)} {value : σ}
    {a : α} (hu : under member.key pairs = [value]) (h : member.read value = .ok a) :
    member.settle none pairs = some a := by
  induction pairs with
  | nil => cases hu
  | cons p pairs ih =>
    by_cases hk : member.key = p.1
    · rw [under, List.filter_cons_of_pos (by simpa using hk), List.map_cons] at hu
      obtain ⟨rfl, ht⟩ := List.cons.inj hu
      -- no later pair has the key, so the member keeps what it has read
      have hs : member.settle (some a) pairs = some a :=
        Member.settle_of_forall_ne (under_eq_nil.1 ht)
      simp [settle, hk, h, Except.toOption, hs]
    · rw [under, List.filter_cons_of_neg (by simpa using hk)] at hu
      rw [settle, if_neg hk, ih hu]

namespace Members

/-- The keys of the members in declared order. -/
def keys : {αs : List Type} → Members σ αs → List String
  | _, .none => []
  | _, .also member others => member.key :: others.keys

/-- Every member ends up with its value. -/
def Settle : {αs : List Type} → Members σ αs → Slots αs → List (String × σ) → Values αs → Prop
  | _, .none, _, _, _ => True
  | _, .also member others, (slot, slots), pairs, (a, values) =>
    member.settle slot pairs = some a ∧ others.Settle slots pairs values

theorem map_eq_ok {ε β : Type} {e : Except ε α} {f : α → β} {b : β} :
    e.map f = .ok b ↔ ∃ a, e = .ok a ∧ f a = b := by
  cases e <;> simp [Except.map]

/-- A pair does not concern members with other keys. -/
theorem settle_cons_of_notMem {members : Members σ αs} {slots : Slots αs} {key : String} {value : σ}
    {pairs : List (String × σ)} {values : Values αs} (hk : key ∉ members.keys) :
    members.Settle slots ((key, value) :: pairs) values ↔ members.Settle slots pairs values := by
  induction members with
  | none => exact Iff.rfl
  | also member others ih =>
    obtain ⟨slot, slots⟩ := slots
    obtain ⟨a, values⟩ := values
    obtain ⟨hne, hk⟩ : key ≠ member.key ∧ key ∉ others.keys := by simpa [keys] using hk
    rw [Settle, Settle, Member.settle, if_neg hne.symm, ih hk]

/-- Once the table has ended every member has been read or something stands for it. -/
theorem close_eq_ok {members : Members σ αs} {slots : Slots αs} {values : Values αs} :
    members.close slots = .ok values ↔ members.Settle slots [] values := by
  induction members with
  | none => exact iff_of_true rfl trivial
  | also member others ih =>
    obtain ⟨slot, slots⟩ := slots
    obtain ⟨a, values⟩ := values
    rw [close, Settle, Member.settle, ← ih]
    cases slot.or member.omitted with
    | none => simp
    | some b =>
      refine map_eq_ok.trans ?_
      constructor
      · rintro ⟨values', hc, he⟩
        cases he
        exact ⟨rfl, hc⟩
      · rintro ⟨he, hc⟩
        cases he
        exact ⟨values, hc, rfl⟩

/-- One pair goes to the member of its key, or is passed over. -/
theorem put_settle {skip : σ → Except Fault Unit} {members : Members σ αs}
    (hn : members.keys.Nodup) {slots : Slots αs} {key : String} {value : σ}
    {pairs : List (String × σ)} {values : Values αs} :
    (∃ filled, members.put skip slots key value = .ok filled ∧ members.Settle filled pairs values) ↔
      members.Settle slots ((key, value) :: pairs) values ∧
        (key ∉ members.keys → skip value = .ok ()) := by
  induction members with
  | none =>
    rw [put]
    cases skip value with
    | error fault =>
      constructor
      · rintro ⟨filled, hf, -⟩
        cases hf
      · rintro ⟨-, hs⟩
        cases hs List.not_mem_nil
    | ok u => exact iff_of_true ⟨(), rfl, trivial⟩ ⟨trivial, fun _ => rfl⟩
  | also member others ih =>
    obtain ⟨slot, slots⟩ := slots
    obtain ⟨a, values⟩ := values
    obtain ⟨hm, hn⟩ := List.nodup_cons.1 hn
    rw [put, Settle, Member.settle]
    by_cases hk : member.key = key
    · subst hk
      have hmem : member.key ∈ (also member others).keys := List.mem_cons_self ..
      simp only [if_true, settle_cons_of_notMem hm, hmem, not_true_eq_false, false_implies, and_true]
      cases slot with
      | some b => simp
      | none =>
        cases member.read value with
        | error fault => simp [Except.map, Except.toOption]
        | ok b =>
          constructor
          · rintro ⟨filled, hf, hs⟩
            cases hf
            exact hs
          · rintro hs
            exact ⟨_, rfl, hs⟩
    · have hkeys : key ∉ (also member others).keys ↔ key ∉ others.keys := by
        simp [keys, Ne.symm hk]
      simp only [if_neg hk, hkeys]
      rw [and_assoc, ← ih hn]
      constructor
      · rintro ⟨filled, hf, hs⟩
        obtain ⟨filled', hf', rfl⟩ := map_eq_ok.1 hf
        exact ⟨hs.1, filled', hf', hs.2⟩
      · rintro ⟨hs, filled, hf, hs'⟩
        exact ⟨(slot, filled), map_eq_ok.2 ⟨filled, hf, rfl⟩, hs, hs'⟩

/-- A table is read exactly if every member gets a value from the pairs of its own key and every
    other pair can be passed over. -/
theorem putAll_close {skip : σ → Except Fault Unit} {members : Members σ αs}
    (hn : members.keys.Nodup) {slots : Slots αs} {pairs : List (String × σ)} {values : Values αs} :
    (∃ filled, members.putAll skip slots pairs = .ok filled ∧ members.close filled = .ok values) ↔
      members.Settle slots pairs values ∧
        ∀ p ∈ pairs, p.1 ∉ members.keys → skip p.2 = .ok () := by
  induction pairs generalizing slots with
  | nil => simp [putAll, close_eq_ok]
  | cons p pairs ih =>
    obtain ⟨key, value⟩ := p
    rw [List.forall_mem_cons, ← and_assoc, ← put_settle hn, putAll]
    cases members.put skip slots key value with
    | error fault => simp
    | ok filled => simp [ih]

end Members

/-! ### Records in declared order -/

/-- The pairs are that of the member alone, or there are none and its value stands for it. -/
def Member.Tells (member : Member σ α) (pairs : List (String × σ)) (a : α) : Prop :=
  (∃ value, pairs = [(member.key, value)] ∧ member.read value = .ok a) ∨
    pairs = [] ∧ member.omitted = some a

theorem Member.Tells.keys_sublist {member : Member σ α} {pairs : List (String × σ)} {a : α}
    (h : member.Tells pairs a) : (pairs.map (·.1)).Sublist [member.key] := by
  rcases h with ⟨value, rfl, -⟩ | ⟨rfl, -⟩
  · exact .refl _
  · exact List.nil_sublist _

namespace Members

/-- The pairs are those of the members in declared order. -/
def Tells : {αs : List Type} → Members σ αs → List (String × σ) → Values αs → Prop
  | _, .none, pairs, _ => pairs = []
  | _, .also member others, pairs, (a, values) =>
    ∃ first rest, pairs = first ++ rest ∧ member.Tells first a ∧ others.Tells rest values

theorem Tells.keys_sublist {members : Members σ αs} {pairs : List (String × σ)} {values : Values αs}
    (h : members.Tells pairs values) : (pairs.map (·.1)).Sublist members.keys := by
  induction members generalizing pairs with
  | none =>
    cases h
    exact .slnil
  | also member others ih =>
    obtain ⟨a, values⟩ := values
    obtain ⟨first, rest, rfl, hf, hr⟩ := h
    rw [List.map_append]
    exact hf.keys_sublist.append (ih hr)

theorem Tells.settle {members : Members σ αs} (hn : members.keys.Nodup)
    {before pairs : List (String × σ)} (hb : ∀ p ∈ before, p.1 ∉ members.keys) {values : Values αs}
    (h : members.Tells pairs values) : members.Settle (Slots.empty αs) (before ++ pairs) values := by
  induction members generalizing before pairs with
  | none => trivial
  | also member others ih =>
    obtain ⟨a, values⟩ := values
    obtain ⟨first, rest, rfl, hf, hr⟩ := h
    obtain ⟨hm, hn⟩ := List.nodup_cons.1 hn
    have hb' : ∀ p ∈ before, member.key ≠ p.1 := fun p hp he => hb p hp (he ▸ List.mem_cons_self)
    have hr' : ∀ p ∈ rest, member.key ≠ p.1 := fun p hp he =>
      hm (he ▸ hr.keys_sublist.subset (List.mem_map_of_mem hp))
    constructor
    · rcases hf with ⟨value, rfl, hv⟩ | ⟨rfl, ho⟩
      · refine Member.settle_of_under_eq ?_ hv
        rw [under_append, under_append, under_eq_nil.2 hb', under_eq_nil.2 hr']
        simp [under]
      · rw [List.nil_append, Member.settle_of_forall_ne (List.forall_mem_append.2 ⟨hb', hr'⟩), ho]
        rfl
    · rw [← List.append_assoc]
      refine ih hn (fun p hp hk => ?_) hr
      rcases List.mem_append.1 hp with hp | hp
      · exact hb p hp (List.mem_cons_of_mem _ hk)
      · have he := List.mem_singleton.1 (hf.keys_sublist.subset (List.mem_map_of_mem hp))
        exact hm (he ▸ hk)

/-- A table whose pairs are those of the members in declared order is read as their values. -/
theorem Tells.putAll_close {members : Members σ αs} (hn : members.keys.Nodup)
    {pairs : List (String × σ)} {values : Values αs} (h : members.Tells pairs values)
    (skip : σ → Except Fault Unit) : ∃ filled,
      members.putAll skip (Slots.empty αs) pairs = .ok filled ∧ members.close filled = .ok values :=
  (Members.putAll_close hn).2
    ⟨h.settle hn (List.forall_mem_nil _), fun _ hp hk =>
      absurd (h.keys_sublist.subset (List.mem_map_of_mem hp)) hk⟩

end Members

/-! ### Where the values of a record come from -/

/-- The value has been read for the member, or stands for the member that was left out. -/
inductive Member.Gives (member : Member σ α) (a : α) : Prop
  | read {item : σ} (h : member.read item = .ok a)
  | omitted (h : member.omitted = some a)
  | beyond (h : member.beyond = some a)

theorem Member.gives_of_settle {member : Member σ α} {slot : Option α} {a : α}
    {pairs : List (String × σ)} (h : member.settle slot pairs = some a) :
    slot = some a ∨ member.Gives a := by
  induction pairs generalizing slot with
  | nil =>
    rcases Option.or_eq_some_iff.1 h with h | ⟨-, h⟩
    · exact Or.inl h
    · exact Or.inr (.omitted h)
  | cons p pairs ih =>
    rw [settle] at h
    split at h
    · split at h
      · cases h
      · obtain ⟨b, hb, h⟩ := Option.bind_eq_some_iff.1 h
        rcases ih h with hab | hg
        · cases hab
          cases hr : member.read p.2 with
          | error fault => simp [hr, Except.toOption] at hb
          | ok c =>
            rw [hr] at hb
            cases hb
            exact Or.inr (.read hr)
        · exact Or.inr hg
    · exact ih h

namespace Members

/-- Every value has been read for its member, or stands for it. -/
def Gives : {αs : List Type} → Members σ αs → Values αs → Prop
  | _, .none, _ => True
  | _, .also member others, (a, values) => member.Gives a ∧ others.Gives values

theorem gives_of_settle {members : Members σ αs} {pairs : List (String × σ)} {values : Values αs}
    (h : members.Settle (Slots.empty αs) pairs values) : members.Gives values := by
  induction members with
  | none => trivial
  | also member others ih =>
    obtain ⟨a, values⟩ := values
    exact ⟨(Member.gives_of_settle h.1).resolve_left nofun, ih h.2⟩

/-- Values taken from a list have been read for their members, or stand for them. -/
theorem gives_of_take {members : Members σ αs} {wanted : String} {closed : Bool} {i : Nat}
    {items left : List σ} {values : Values αs}
    (h : members.take wanted closed i items = .ok (values, left)) : members.Gives values := by
  induction members generalizing i items with
  | none => trivial
  | also member others ih =>
    cases items with
    | nil =>
      rw [take] at h
      split at h
      · split at h
        · cases h
        · rename_i a ha
          obtain ⟨⟨values', left'⟩, ht, he⟩ := map_eq_ok.1 h
          cases he
          exact ⟨.beyond ha, ih ht⟩
      · cases h
    | cons item items =>
      rw [take] at h
      split at h
      · cases h
      · rename_i a ha
        obtain ⟨⟨values', left'⟩, ht, he⟩ := map_eq_ok.1 h
        cases he
        exact ⟨.read ha, ih ht⟩

end Members

end Immutability
