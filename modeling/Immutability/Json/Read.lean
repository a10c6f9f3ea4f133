import Immutability.Json.Basic
import Immutability.Json.Tree
import Immutability.Number.Notation
import Immutability.Reading.Record

/-! Reading typed values off the tree of a JSON text.

    Every reader takes what it needs in the order of the text and stops at the first fault: a fault of
    the text where the text has it, and a wrong shape where the reader meets it. A scalar of the wrong
    type is read to its end before it is refused, a container is refused at its opening bracket. -/

namespace Immutability.Json

namespace Read

/-- What a quantity is called when it is refused. -/
def foundQuantity : Quantity → Found
  | .integer i => .integer i
  | .decimal x => .decimal (String.ofList x.scientific)

/-- Refuses a tree. -/
def mismatch {α : Type} (wanted : String) : Tree → Except Fault α
  | .null => .error (.shape (.wrongType .null wanted))
  | .boolean b => .error (.shape (.wrongType (.boolean b) wanted))
  | .numeral n =>
    match n.value with
    | some q => .error (.shape (.wrongType (foundQuantity q) wanted))
    | none => .error .malformed
  | .text s => .error (.shape (.wrongType (.text s) wanted))
  | .sequence _ _ => .error (.shape (.wrongType .sequence wanted))
  | .table _ _ => .error (.shape (.wrongType .map wanted))
  | .unpaired | .broken => .error .malformed

/-! ### Scalars -/

/-- A text. -/
def text : Tree → Except Fault String
  | .text s => .ok s
  | t => mismatch "a string" t

/-- A truth value. -/
def boolean : Tree → Except Fault Bool
  | .boolean b => .ok b
  | t => mismatch "a boolean" t

/-- Nothing. -/
def unit : Tree → Except Fault Unit
  | .null => .ok ()
  | t => mismatch "unit" t

/-- A natural number below `bound`; `wanted` names the type of such numbers. -/
def natural (bound : Nat) (wanted : String) : Tree → Except Fault Nat
  | .numeral n =>
    match n.value with
    | some (.integer i) =>
      if 0 ≤ i ∧ i < bound then .ok i.toNat
      else .error (.shape (.wrongValue (.integer i) wanted))
    | some q => .error (.shape (.wrongType (foundQuantity q) wanted))
    | none => .error .malformed
  | t => mismatch wanted t

/-- A count or a line number. -/
def count : Tree → Except Fault Nat := natural UInt64.size "usize"

/-- A part of a version number. -/
def versionPart : Tree → Except Fault Nat := natural UInt32.size "u32"

/-- A value that may be absent. -/
def option {α : Type} (read : Tree → Except Fault α) : Tree → Except Fault (Option α)
  | .null => .ok none
  | t => (read t).map some

/-! ### Containers -/

/-- A list. -/
def list {α : Type} (read : Tree → Except Fault α) : Tree → Except Fault (List α)
  | .sequence ts closed =>
    match readAll read ts with
    | .error fault => .error fault
    | .ok as => if closed then .ok as else .error .malformed
  | t => mismatch "a sequence" t

mutual

/-- The text of this tree has no fault. -/
def intact : Tree → Bool
  | .broken => false
  | .sequence ts closed => closed && intactItems ts
  | .table members closed => closed && intactMembers members
  | _ => true

/-- The text of these items has no fault. -/
def intactItems : List Tree → Bool
  | [] => true
  | t :: ts => intact t && intactItems ts

/-- The text of these members has no fault. -/
def intactMembers : List (Option String × Tree) → Bool
  | [] => true
  | (_, t) :: members => intact t && intactMembers members

end

/-- Passes over a value. -/
def skip (t : Tree) : Except Fault Unit := if intact t then .ok () else .error .malformed

/-- The members before the first key that spells no text, and whether these are all members. -/
def spelled : List (Option String × Tree) → List (String × Tree) × Bool
  | [] => ([], true)
  | (none, _) :: _ => ([], false)
  | (some key, t) :: rest =>
    let (pairs, all) := spelled rest
    ((key, t) :: pairs, all)

/-- A record called `name`, written as a table or as a list. -/
def record {αs : List Type} (name : String) (members : Members Tree αs) :
    Tree → Except Fault (Values αs)
  | .table written closed =>
    let (pairs, all) := spelled written
    match members.putAll skip (Slots.empty αs) pairs with
    | .error fault => .error fault
    | .ok slots =>
      if all && closed then members.close slots else .error .malformed
  | .sequence ts closed =>
    let wanted := "struct " ++ name ++ " with " ++ toString members.count ++ " elements"
    match members.take wanted closed 0 ts with
    | .error fault => .error fault
    | .ok (values, left) => if closed && left.isEmpty then .ok values else .error .malformed
  | t => mismatch ("struct " ++ name) t

/-! ### Variants -/

/-- A variant, written as its name or as a table of its name and its content. -/
def variant {α β : Type} (known : List (String × α)) (bare : α → Except Fault β)
    (content : α → Tree → Except Fault β) : Tree → Except Fault β
  | .text name => (variantOf known name).bind bare
  | .table ((some name, value) :: more) closed =>
    match (variantOf known name).bind fun a => content a value with
    | .error fault => .error fault
    | .ok b => if more.isEmpty && closed then .ok b else .error .malformed
  | _ => .error .malformed

/-- A variant without content. -/
def plain {α : Type} (known : List (String × α)) : Tree → Except Fault α :=
  variant known .ok fun a t => (unit t).map fun _ => a

/-- A variant with content. -/
def tagged {α β : Type} (known : List (String × (α → β))) (read : Tree → Except Fault α) :
    Tree → Except Fault β :=
  variant known (fun _ => .error (.shape (.wrongType .bareVariant "newtype variant")))
    fun make t => (read t).map make

/-! ### Free-form values -/

mutual

/-- Any value whose containers are nested at most `depth` deep. The members of a table are sorted by
    their keys, and of equal keys the last one counts. -/
def free? (depth : Nat) : Tree → Option Json
  | .null => some .null
  | .boolean b => some (.boolean b)
  | .numeral n =>
    match n.value with
    | some (.integer i) => some (.integer i)
    | some (.decimal x) => some (.decimal x)
    | none => none
  | .text s => some (.text s)
  | .sequence ts closed =>
    if 0 < depth && closed then (freeItems? (depth - 1) ts).map .sequence else none
  | .table members closed =>
    if 0 < depth && closed then
      (freeMembers? (depth - 1) members).map fun members => .table (sorted members)
    else none
  | .unpaired | .broken => none

/-- The items of a free-form sequence. -/
def freeItems? (depth : Nat) : List Tree → Option (List Json)
  | [] => some []
  | t :: ts =>
    match free? depth t, freeItems? depth ts with
    | some v, some vs => some (v :: vs)
    | _, _ => none

/-- The members of a free-form table. -/
def freeMembers? (depth : Nat) : List (Option String × Tree) → Option (List (String × Json))
  | [] => some []
  | (none, _) :: _ => none
  | (some key, t) :: members =>
    match free? depth t, freeMembers? depth members with
    | some v, some vs => some ((key, v) :: vs)
    | _, _ => none

end

/-- Any value whose containers are nested at most `depth` deep. -/
def free (depth : Nat) (t : Tree) : Except Fault Json :=
  match free? depth t with
  | some v => .ok v
  | none => .error .malformed

end Read

/-- Reads a whole text. -/
def Source.read {α : Type} (read : Tree → Except Fault α) (source : Source) : Except Fault α :=
  match read source.tree with
  | .error fault => .error fault
  | .ok a => if source.complete then .ok a else .error .malformed

end Immutability.Json
