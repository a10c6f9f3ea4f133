import Immutability.Verification
import Mathlib.Algebra.GroupWithZero.Nat
import Mathlib.Data.List.Basic

/-! What a run adds up to.

    Visiting an element adds to the outcome and never looks at it, so a run is a sum over the marked
    elements. Only the diagnostics of an element depend on the graph; the counts and the names of
    what is skipped depend on the element alone. Marked fields report nothing, which leaves one
    block of diagnostics for each type that is checked. -/

namespace Immutability

/-- The outcome of a run that goes on after another one. -/
def Verification.followedBy (a b : Verification) : Verification where
  diagnostics := a.diagnostics ++ b.diagnostics
  elementsChecked := a.elementsChecked + b.elementsChecked
  classesVerified := a.classesVerified + b.classesVerified
  fieldsClassified := a.fieldsClassified + b.fieldsClassified
  skipped := a.skipped ++ b.skipped

@[simp] theorem Verification.empty_followedBy (o : Verification) :
    Verification.followedBy {} o = o := by
  simp [followedBy]

namespace Verifier

variable (v : Verifier) (g : TypeGraph)

/-- The verifier leaves out what belongs to a type of this name. -/
def skips (name : String) : Bool := Immutability.skipped v.skipTypes name

/-- What an element adds to the diagnostics. -/
def reported (e : Element) : List Diagnostic :=
  if v.skips e.owner.name then [] else v.verifyElement g e

/-- What an element adds to the counts of classes and fields. -/
def counted (e : Element) : Nat × Nat := if v.skips e.owner.name then (0, 0) else workload e

/-- What an element adds to the names of what is skipped. -/
def noted (e : Element) : List String := if v.skips e.owner.name then [e.name] else []

/-- The outcome that elements add up to. -/
def total (es : List Element) : Verification where
  diagnostics := es.flatMap (v.reported g)
  elementsChecked := es.length
  classesVerified := (es.map fun e => (v.counted e).1).sum
  fieldsClassified := (es.map fun e => (v.counted e).2).sum
  skipped := es.flatMap v.noted

theorem visit_eq (o : Verification) (e : Element) :
    v.visit g o e = o.followedBy
      ⟨v.reported g e, 1, (v.counted e).1, (v.counted e).2, v.noted e⟩ := by
  unfold visit reported counted noted skips
  split <;> simp [Verification.followedBy]

/-- Visiting elements one after the other adds what they add up to. -/
theorem foldl_visit (es : List Element) (o : Verification) :
    es.foldl (v.visit g) o = o.followedBy (v.total g es) := by
  induction es generalizing o with
  | nil => simp [total, Verification.followedBy]
  | cons e es ih =>
    rw [List.foldl_cons, ih, visit_eq]
    simp [total, Verification.followedBy, Nat.add_assoc, Nat.add_comm 1]

/-- A run over elements in two parts. -/
theorem total_append (es fs : List Element) :
    v.total g (es ++ fs) = (v.total g es).followedBy (v.total g fs) := by
  simp [total, Verification.followedBy]

/-- All but the diagnostics depends on the elements and on the types to skip alone. -/
theorem total_eq_of_skipTypes {v v' : Verifier} (hk : v'.skipTypes = v.skipTypes)
    (g g' : TypeGraph) (es : List Element) :
    v'.total g' es = { v.total g es with diagnostics := es.flatMap (v'.reported g') } := by
  have hs : v'.skips = v.skips := by
    funext name
    rw [skips, skips, hk]
  have hc : v'.counted = v.counted := by
    funext e
    rw [counted, counted, hs]
  have hn : v'.noted = v.noted := by
    funext e
    rw [noted, noted, hs]
  rw [total, total, hc, hn]

theorem verify_eq_total : v.verify g = v.total g g.markedElements := by
  rw [verify, foldl_visit, Verification.empty_followedBy]

/-! ### What is skipped -/

/-- The names that a type adds to what is skipped: its own and those of its fields, as far as they
    are marked. -/
def skippedIn (t : TypeDeclaration) : List String :=
  if v.skips t.name then t.markedElements.map Element.name else []

/-- The marked elements of a type are itself, if it is marked, and its marked fields. -/
theorem names_markedElements (t : TypeDeclaration) : t.markedElements.map Element.name =
    (if t.marked then [t.name] else []) ++ t.markedFields.map (·.qualifiedName) := by
  rw [TypeDeclaration.markedElements, List.map_append, List.map_map]
  split <;> rfl

theorem owner_of_mem_markedElements {t : TypeDeclaration} {e : Element}
    (he : e ∈ t.markedElements) : e.owner = t := by
  rcases List.mem_append.1 he with he | he
  · split at he
    · rw [List.mem_singleton.1 he]
      rfl
    · cases he
  · obtain ⟨f, -, rfl⟩ := List.mem_map.1 he
    rfl

theorem noted_markedElements (t : TypeDeclaration) :
    t.markedElements.flatMap v.noted = v.skippedIn t := by
  have hn : t.markedElements.flatMap v.noted =
      t.markedElements.flatMap fun e => if v.skips t.name then [e.name] else [] :=
    List.flatMap_congr fun e he => by rw [noted, owner_of_mem_markedElements he]
  rw [hn, skippedIn, List.map_eq_flatMap]
  cases v.skips t.name <;> simp

/-- A run skips the marked elements of the types that are left out. -/
theorem verify_skipped : (v.verify g).skipped = g.types.toList.flatMap v.skippedIn := by
  rw [verify_eq_total]
  simp only [total, TypeGraph.markedElements, List.flatMap_assoc, noted_markedElements]

/-! ### Blocks -/

/-- The type is checked: it is marked and not left out. -/
def checks (t : TypeDeclaration) : Bool := t.marked && !v.skips t.name

/-- The diagnostics of a type in a run. -/
def block (t : TypeDeclaration) : List Diagnostic :=
  if v.checks t then v.verifyElement g (.type t) else []

/-- The marked elements of a type report the block of the type, since its fields report nothing. -/
theorem reported_markedElements (t : TypeDeclaration) :
    t.markedElements.flatMap (v.reported g) = v.block g t := by
  have hf : (t.markedFields.map (Element.field t)).flatMap (v.reported g) = [] := by
    rw [List.flatMap_eq_nil_iff]
    intro e he
    obtain ⟨f, -, rfl⟩ := List.mem_map.1 he
    simp [reported, verifyElement, elementViolations]
  rw [TypeDeclaration.markedElements, List.flatMap_append, hf, List.append_nil, block, checks]
  cases t.marked with
  | false => simp
  | true => cases hs : v.skips t.name <;> simp [reported, Element.owner, hs]

/-- A run reports the blocks of the types in their order. -/
theorem verify_diagnostics :
    (v.verify g).diagnostics = g.types.toList.flatMap (v.block g) := by
  rw [verify_eq_total]
  simp only [total, TypeGraph.markedElements, List.flatMap_assoc, reported_markedElements]

/-! ### Violations -/

/-- The violations that a run reports, in their order. -/
def violations : List Violation :=
  (g.types.toList.filter v.checks).flatMap (typeViolations g v.registry)

/-- The violations of a type that a run reports. -/
def violationsIn (t : TypeDeclaration) : List Violation :=
  if v.checks t then typeViolations g v.registry t else []

theorem block_eq_map (t : TypeDeclaration) :
    v.block g t = (v.violationsIn g t).map (·.diagnose v.severities) := by
  rw [block, violationsIn]
  split <;> rfl

theorem violations_eq_flatMap : v.violations g = g.types.toList.flatMap (v.violationsIn g) := by
  rw [violations]
  induction g.types.toList with
  | nil => rfl
  | cons t ts ih =>
    rw [List.flatMap_cons, ← ih, violationsIn, List.filter_cons]
    split <;> rfl

theorem verify_diagnostics_eq_map :
    (v.verify g).diagnostics = (v.violations g).map (·.diagnose v.severities) := by
  rw [verify_diagnostics, violations_eq_flatMap, List.map_flatMap, funext (v.block_eq_map g)]

/-! ### A run around one type -/

section Around

variable {g} {t : TypeDeclaration} {before after : List TypeDeclaration}

theorem verify_diagnostics_around (ht : g.types.toList = before ++ t :: after) :
    (v.verify g).diagnostics =
      before.flatMap (v.block g) ++ v.block g t ++ after.flatMap (v.block g) := by
  rw [verify_diagnostics, ht, List.flatMap_append, List.flatMap_cons, List.append_assoc]

theorem violations_around (ht : g.types.toList = before ++ t :: after) :
    v.violations g = before.flatMap (v.violationsIn g) ++ v.violationsIn g t ++
      after.flatMap (v.violationsIn g) := by
  rw [violations_eq_flatMap, ht, List.flatMap_append, List.flatMap_cons, List.append_assoc]

theorem verify_skipped_around (ht : g.types.toList = before ++ t :: after) :
    (v.verify g).skipped =
      before.flatMap v.skippedIn ++ v.skippedIn t ++ after.flatMap v.skippedIn := by
  rw [verify_skipped, ht, List.flatMap_append, List.flatMap_cons, List.append_assoc]

end Around

end Verifier

end Immutability
