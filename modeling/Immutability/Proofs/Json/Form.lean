import Immutability.Proofs.Json.Reading
import Mathlib.Data.List.Forall2

/-! The forms of a value.

    A value may be written in more ways than one. A form tells which trees stand for which values: in
    a record the order of the keys is free, so are further keys and their values, and a member may
    be left out if its value is the default. A reader takes a form if it reads every tree of the
    form as the value that it stands for. -/

namespace Immutability.Json

/-- Which trees may be written for which values. -/
def Form (α : Type) := Tree → α → Prop

/-- The pairs give a member its value: one pair has its key, or none has and the value is the
    default. -/
inductive Given {α : Type} (key : String) (omitted : Option α) (form : Form α)
    (pairs : List (String × Tree)) (a : α) : Prop
  | written {t : Tree} (hu : under key pairs = [t]) (h : form t a)
  | omitted (hu : under key pairs = []) (h : omitted = some a)

namespace Form

variable {α β : Type}

/-- A text. -/
def text : Form String := fun t s => t = .text s

/-- A truth value. -/
def boolean : Form Bool := fun t b => t = .boolean b

/-- A variant without content, written as its name. -/
def named (name : α → String) : Form α := fun t a => t = .text (name a)

/-- A value that is the image of another one. -/
def map (f : α → β) (form : Form α) : Form β := fun t b => ∃ a, form t a ∧ f a = b

/-- A value that may be absent. -/
def option (form : Form α) : Form (Option α)
  | t, none => t = .null
  | t, some a => form t a

/-- A list. -/
def list (form : Form α) : Form (List α) := fun t as =>
  ∃ ts, t = .sequence ts true ∧ List.Forall₂ form ts as

/-- A record, written as a table of pairs that give its members. -/
def record (gives : List (String × Tree) → α → Prop) : Form α := fun t a =>
  ∃ pairs, t = .table (keyed pairs) true ∧ gives pairs a

/-- The reader takes the form: it reads every tree of the form as what it stands for. -/
def TakenBy (form : Form α) (read : Tree → Except Fault α) : Prop :=
  ∀ t a, Read.intact t = true → form t a → read t = .ok a

end Form

/-! ### Printed values -/

/-- A printed table is a record if its pairs give the members. -/
theorem Form.record_tree {α : Type} {gives : List (String × Tree) → α → Prop}
    {pairs : List (String × Json)} {a : α} (h : gives (pairs.map fun p => (p.1, p.2.tree)) a) :
    Form.record gives (Json.table pairs).tree a :=
  ⟨_, congrArg (Tree.table · true) (treeMembers_eq_keyed pairs), h⟩

theorem Form.list_tree {α : Type} {form : Form α} {write : α → Json} {as : List α}
    (h : ∀ a ∈ as, form (write a).tree a) :
    Form.list form (Json.sequence (as.map write)).tree as := by
  refine ⟨_, rfl, ?_⟩
  induction as with
  | nil => exact .nil
  | cons a as ih =>
    obtain ⟨ha, has⟩ := List.forall_mem_cons.1 h
    exact .cons ha (ih has)

/-! ### Readers of forms -/

theorem intact_of_mem_items {ts : List Tree} (h : Read.intactItems ts = true) :
    ∀ t ∈ ts, Read.intact t = true := by
  induction ts with
  | nil => exact nofun
  | cons t ts ih =>
    obtain ⟨ht, hts⟩ : Read.intact t = true ∧ Read.intactItems ts = true := by
      simpa [Read.intactItems] using h
    exact List.forall_mem_cons.2 ⟨ht, ih hts⟩

theorem intact_of_mem_keyed {pairs : List (String × Tree)}
    (h : Read.intactMembers (keyed pairs) = true) : ∀ p ∈ pairs, Read.intact p.2 = true := by
  induction pairs with
  | nil => exact nofun
  | cons p pairs ih =>
    obtain ⟨hp, hps⟩ : Read.intact p.2 = true ∧ Read.intactMembers (keyed pairs) = true := by
      simpa [keyed, Read.intactMembers] using h
    exact List.forall_mem_cons.2 ⟨hp, ih hps⟩

/-- A member that is given a value settles on it. -/
theorem Given.settle {α : Type} {member : Member Tree α} {form : Form α}
    {pairs : List (String × Tree)} {a : α} (h : Given member.key member.omitted form pairs a)
    (hf : form.TakenBy member.read) (hi : ∀ p ∈ pairs, Read.intact p.2 = true) :
    member.settle none pairs = some a := by
  cases h with
  | @written t hu h =>
    have hm : t ∈ under member.key pairs := hu ▸ List.mem_cons_self ..
    obtain ⟨p, hp, rfl⟩ := List.mem_map.1 hm
    exact Member.settle_of_under_eq hu (hf p.2 a (hi p (List.mem_filter.1 hp).1) h)
  | omitted hu h =>
    rw [Member.settle_of_forall_ne (under_eq_nil.1 hu), h]
    rfl

namespace Form.TakenBy

variable {α β : Type} {form : Form α} {read : Tree → Except Fault α}

theorem text : Form.text.TakenBy Read.text := by
  rintro _ s - rfl
  rfl

theorem boolean : Form.boolean.TakenBy Read.boolean := by
  rintro _ b - rfl
  rfl

/-- A variant is read from its name. -/
theorem named {known : List (String × α)} {name : α → String}
    (h : ∀ a, known.lookup (name a) = some a) : (Form.named name).TakenBy (Read.plain known) := by
  rintro _ a - rfl
  simp only [Read.plain, Read.variant, variantOf, h]
  rfl

theorem map {f : α → β} (h : form.TakenBy read) :
    (form.map f).TakenBy fun t => (read t).map f := by
  rintro t _ ht ⟨a, ha, rfl⟩
  simp only [h t a ht ha, Except.map]

/-- A value is told from one that is absent. -/
theorem option (h : form.TakenBy read) (hn : ∀ a, ¬ form .null a) :
    form.option.TakenBy (Read.option read) := by
  rintro t o ht ho
  cases o with
  | none =>
    obtain rfl : t = .null := ho
    rfl
  | some a =>
    -- the reader takes nothing for an absent value first, and no value is written so
    rw [Read.option, h t a ht ho]
    · rfl
    · rintro rfl
      exact hn a ho

theorem items (h : form.TakenBy read) {ts : List Tree} {as : List α}
    (ha : List.Forall₂ form ts as) (hi : ∀ t ∈ ts, Read.intact t = true) :
    readAll read ts = .ok as := by
  refine readAll_of_forall₂ ?_
  induction ha with
  | nil => exact .nil
  | cons ht hts ih =>
    obtain ⟨hi, his⟩ := List.forall_mem_cons.1 hi
    exact .cons (h _ _ hi ht) (ih his)

/-- A list is read item by item. -/
theorem list (h : form.TakenBy read) : form.list.TakenBy (Read.list read) := by
  rintro _ as hi ⟨ts, rfl, ha⟩
  have hi : ∀ t ∈ ts, Read.intact t = true := intact_of_mem_items (by simpa [Read.intact] using hi)
  simp only [Read.list, h.items ha hi, if_true]

/-- A record is read if each of its members settles on the value that it is given. -/
theorem record {αs : List Type} {members : Members Tree αs} (hn : members.keys.Nodup)
    {name : String} {gives : List (String × Tree) → α → Prop} {make : Values αs → α}
    (h : ∀ pairs a, (∀ p ∈ pairs, Read.intact p.2 = true) → gives pairs a →
      ∃ values, members.Settle (Slots.empty αs) pairs values ∧ make values = a) :
    (Form.record gives).TakenBy fun t => (Read.record name members t).map make := by
  rintro _ a hi ⟨pairs, rfl, hg⟩
  have hi : ∀ p ∈ pairs, Read.intact p.2 = true :=
    intact_of_mem_keyed (by simpa [Read.intact] using hi)
  obtain ⟨values, hs, rfl⟩ := h pairs a hi hg
  have hr := record_keyed hn hs (fun p hp _ => if_pos (hi p hp)) name
  simp only [hr, Except.map]

end Form.TakenBy

end Immutability.Json
