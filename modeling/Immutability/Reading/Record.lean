import Immutability.Reading.Fault

/-! Reading a record member by member.

    A record is described by its members in declared order. It may be written as a table, whose pairs
    come in any order and may hold keys that are not members, or as a list, whose items are the
    members in declared order. Both forms are read pair by pair and item by item, as are the items of
    a list (`readAll`), so the first fault in the order of the text is the one reported. -/

namespace Immutability

/-- Reads values in their order. -/
def readAll {σ α : Type} (read : σ → Except Fault α) : List σ → Except Fault (List α)
  | [] => .ok []
  | s :: ss =>
    match read s with
    | .error fault => .error fault
    | .ok a => (readAll read ss).map (a :: ·)

/-- A member of a record: its key, how its value is read, and what stands for it when a table leaves
    it out (`omitted`) or a list ends before it (`beyond`). -/
structure Member (σ α : Type) where
  key : String
  read : σ → Except Fault α
  omitted : Option α
  beyond : Option α

namespace Member

/-- A member that both forms have to give. -/
def required {σ α : Type} (key : String) (read : σ → Except Fault α) : Member σ α :=
  ⟨key, read, none, none⟩

/-- A member that both forms may leave out. -/
def defaulted {σ α : Type} (key : String) (read : σ → Except Fault α) (value : α) : Member σ α :=
  ⟨key, read, some value, some value⟩

/-- A member that a table may leave out and a list may not. -/
def optional {σ α : Type} (key : String) (read : σ → Except Fault (Option α)) :
    Member σ (Option α) :=
  ⟨key, read, some none, none⟩

end Member

/-- The members of a record in declared order, with the types of their values. -/
inductive Members (σ : Type) : List Type → Type 1 where
  | none : Members σ []
  | also {α : Type} {αs : List Type} (member : Member σ α) (others : Members σ αs) :
      Members σ (α :: αs)

/-- The values of all members. -/
def Values : List Type → Type
  | [] => Unit
  | α :: αs => α × Values αs

/-- The values of those members that have been read so far. -/
def Slots : List Type → Type
  | [] => Unit
  | α :: αs => Option α × Slots αs

/-- No member has been read. -/
def Slots.empty : (αs : List Type) → Slots αs
  | [] => ()
  | _ :: αs => (none, Slots.empty αs)

namespace Members

variable {σ : Type}

/-- The number of members. -/
def count : {αs : List Type} → Members σ αs → Nat
  | _, .none => 0
  | _, .also _ others => others.count + 1

/-- Takes one pair of a table. A key that names no member is passed over with `skip`. -/
def put (skip : σ → Except Fault Unit) :
    {αs : List Type} → Members σ αs → Slots αs → String → σ → Except Fault (Slots αs)
  | _, .none, _, _, value => (skip value).map fun _ => ()
  | _, .also member others, (slot, slots), key, value =>
    if member.key = key then
      if slot.isSome then .error (.shape (.duplicateField key))
      else (member.read value).map fun a => (some a, slots)
    else (others.put skip slots key value).map fun filled => (slot, filled)

/-- Takes the pairs of a table in their order. -/
def putAll (skip : σ → Except Fault Unit) {αs : List Type} (members : Members σ αs) :
    Slots αs → List (String × σ) → Except Fault (Slots αs)
  | slots, [] => .ok slots
  | slots, (key, value) :: pairs =>
    match members.put skip slots key value with
    | .error fault => .error fault
    | .ok filled => members.putAll skip filled pairs

/-- The values once the table has ended: a member that was not read takes what stands for it, or is
    missing. -/
def close : {αs : List Type} → Members σ αs → Slots αs → Except Fault (Values αs)
  | _, .none, _ => .ok ()
  | _, .also member others, (slot, slots) =>
    match slot.or member.omitted with
    | Option.none => .error (.shape (.missingField member.key))
    | some a => (others.close slots).map fun values => (a, values)

/-- Takes the items of a list as the members in declared order, from member number `i` on, and
    gives the items left over. A list that is `closed` before a member it has to give has the wrong
    length; one that is not closed breaks off there. -/
def take (wanted : String) (closed : Bool) :
    {αs : List Type} → Members σ αs → Nat → List σ → Except Fault (Values αs × List σ)
  | _, .none, _, items => .ok ((), items)
  | _, .also member others, i, [] =>
    if closed then
      match member.beyond with
      | Option.none => .error (.shape (.wrongLength i wanted))
      | some a =>
        (others.take wanted closed (i + 1) []).map fun (values, left) => ((a, values), left)
    else .error .malformed
  | _, .also member others, i, item :: items =>
    match member.read item with
    | .error fault => .error fault
    | .ok a =>
      (others.take wanted closed (i + 1) items).map fun (values, left) => ((a, values), left)

end Members

end Immutability
