import Immutability.Proofs.Classification
import Immutability.Proofs.Verification.Outcome

/-! What becomes of the diagnostics when more types are trusted.

    Two runs over different graphs, or under different registries, differ in nothing but the fields
    they find invalid. If the second one trusts some more names and is otherwise of the same mind
    (`Settles`), it reports what the first one reports, in the same order and unchanged, except for
    the invalid types of those names. -/

namespace Immutability

/-- The diagnostic is about an invalid type, and its name is among the given ones. -/
def Diagnostic.settledBy (names : String → Bool) (d : Diagnostic) : Bool :=
  d.rule = .fieldInvalidType && d.actual.any names

/-- The violation is about an invalid type, and its name is among the given ones. -/
def Violation.settledBy (names : String → Bool) : Violation → Bool
  | fieldInvalidType _ _ name => names name
  | _ => false

@[simp] theorem Violation.settledBy_nothing (x : Violation) :
    x.settledBy (fun _ => false) = false := by
  cases x <;> rfl

@[simp] theorem Violation.settledBy_diagnose (names : String → Bool) (s : Severities)
    (x : Violation) : (x.diagnose s).settledBy names = x.settledBy names := by
  cases x <;> simp [diagnose, Diagnostic.settledBy, settledBy, rule, actual]

/-- Among the fields that are invalid in `g` under `r`, exactly those whose type has one of the names
    are trusted in `g'` under `r'`; no other field changes. -/
def Settles (names : String → Bool) (g : TypeGraph) (r : Registry) (g' : TypeGraph)
    (r' : Registry) : Prop :=
  ∀ f name, classify g' r' f = .invalid name ↔
    classify g r f = .invalid name ∧ names name = false

/-- If exactly the names settled are spoken for in addition, by the registry or the graph, then
    nothing else changes. -/
theorem TypeGraph.WellFormed.settles_of_spoken {names : String → Bool} {g g' : TypeGraph}
    {r r' : Registry} (hg : g.WellFormed) (hg' : g'.WellFormed)
    (h : ∀ name, (r'.contains name || g'.vouches name) =
      (r.contains name || g.vouches name || names name)) : Settles names g r g' r' := by
  intro f name
  have hn : r'.contains name = false ∧ g'.vouches name = false ↔
      (r.contains name = false ∧ g.vouches name = false) ∧ names name = false := by
    simp only [← Bool.or_eq_false_iff, h]
  rw [hg'.classify_eq_invalid, hg.classify_eq_invalid, hn]
  simp only [and_assoc]

section Settles

variable {names : String → Bool} {g g' : TypeGraph} {r r' : Registry}

/-- The violation that a class of a field is. -/
def FieldClass.violations (t : TypeDeclaration) (f : FieldDeclaration) :
    FieldClass → List Violation
  | invalid name => [.fieldInvalidType t f name]
  | _ => []

theorem fieldViolations_eq (g : TypeGraph) (r : Registry) (t : TypeDeclaration)
    (f : FieldDeclaration) :
    fieldViolations g r t f = (if f.isFinal then [] else [.fieldNotFinal t f]) ++
      (if f.isPrivate then [] else [.fieldNotPrivate t f]) ++ (classify g r f).violations t f := rfl

theorem Settles.violations_eq (h : Settles names g r g' r') (t : TypeDeclaration)
    (f : FieldDeclaration) :
    (classify g' r' f).violations t f =
      ((classify g r f).violations t f).filter fun x => !x.settledBy names := by
  cases hc' : classify g' r' f with
  | invalid name =>
    obtain ⟨hc, hn⟩ := (h f name).1 hc'
    simp [hc, FieldClass.violations, Violation.settledBy, hn]
  | _ =>
    cases hc : classify g r f with
    | invalid name =>
      -- the name is settled: otherwise the field would be invalid still
      have hn : names name = true := by
        rw [← Bool.not_eq_false]
        rintro hn
        have := (h f name).2 ⟨hc, hn⟩
        rw [hc'] at this
        cases this
      simp [FieldClass.violations, Violation.settledBy, hn]
    | _ => rfl

theorem Settles.fieldViolations_eq (h : Settles names g r g' r') (t : TypeDeclaration)
    (f : FieldDeclaration) :
    fieldViolations g' r' t f = (fieldViolations g r t f).filter fun x => !x.settledBy names := by
  rw [Immutability.fieldViolations_eq, Immutability.fieldViolations_eq, h.violations_eq,
    List.filter_append, List.filter_append]
  congr 2
  · split <;> simp [Violation.settledBy]
  · split <;> simp [Violation.settledBy]

theorem Settles.classViolations_eq (h : Settles names g r g' r') (t : TypeDeclaration) :
    classViolations g' r' t = (classViolations g r t).filter fun x => !x.settledBy names := by
  rw [classViolations, classViolations, funext (h.fieldViolations_eq t), List.filter_append,
    List.filter_flatMap]
  congr 1
  split <;> simp [Violation.settledBy]

theorem Settles.typeViolations_eq (h : Settles names g r g' r') (t : TypeDeclaration) :
    typeViolations g' r' t = (typeViolations g r t).filter fun x => !x.settledBy names := by
  unfold typeViolations
  cases t.kind with
  | classKind => exact h.classViolations_eq t
  | _ => simp [Violation.settledBy]

theorem Settles.elementViolations_eq (h : Settles names g r g' r') (e : Element) :
    elementViolations g' r' e = (elementViolations g r e).filter fun x => !x.settledBy names := by
  cases e with
  | type t => exact h.typeViolations_eq t
  | field t f => rfl

/-- Types break the same rules if the graphs speak for the same names. -/
theorem TypeGraph.WellFormed.typeViolations_eq_of_vouches (hg : g.WellFormed)
    (hg' : g'.WellFormed) (hv : g'.vouches = g.vouches) (r : Registry) :
    typeViolations g' r = typeViolations g r := by
  have h : Settles (fun _ => false) g r g' r :=
    hg.settles_of_spoken hg' fun name => by rw [hv, Bool.or_false]
  funext t
  rw [h.typeViolations_eq]
  simp

end Settles

namespace Verifier

variable {names : String → Bool} {g g' : TypeGraph} {v v' : Verifier}

/-- What an element reports is what it reported before, less what is settled. -/
theorem verifyElement_settled (h : Settles names g v.registry g' v'.registry)
    (hs : v'.severities = v.severities) (e : Element) :
    v'.verifyElement g' e = (v.verifyElement g e).filter fun d => !d.settledBy names := by
  rw [verifyElement, verifyElement, h.elementViolations_eq, List.filter_map, hs]
  congr 2
  funext x
  simp

/-- Elements report the same if the graphs speak for the same names. -/
theorem verifyElement_eq_of_vouches (hg : g.WellFormed) (hg' : g'.WellFormed)
    (hv : g'.vouches = g.vouches) : v.verifyElement g' = v.verifyElement g := by
  funext e
  cases e with
  | type t => rw [verifyElement, verifyElement, elementViolations, elementViolations,
      hg.typeViolations_eq_of_vouches hg' hv]
  | field t f => rfl

theorem reported_settled (h : Settles names g v.registry g' v'.registry)
    (hs : v'.severities = v.severities) (hk : v'.skipTypes = v.skipTypes) (e : Element) :
    v'.reported g' e = (v.reported g e).filter fun d => !d.settledBy names := by
  unfold reported skips
  rw [hk, verifyElement_settled h hs]
  split <;> simp

theorem block_settled (h : Settles names g v.registry g' v'.registry)
    (hs : v'.severities = v.severities) (hk : v'.skipTypes = v.skipTypes) (t : TypeDeclaration) :
    v'.block g' t = (v.block g t).filter fun d => !d.settledBy names := by
  have hc : v'.checks t = v.checks t := by rw [checks, checks, skips, skips, hk]
  rw [block, block, hc, verifyElement_settled h hs]
  split <;> simp

/-- The diagnostics of a run over elements are those before, less what is settled. -/
theorem total_diagnostics_settled (h : Settles names g v.registry g' v'.registry)
    (hs : v'.severities = v.severities) (hk : v'.skipTypes = v.skipTypes) (es : List Element) :
    (v'.total g' es).diagnostics =
      (v.total g es).diagnostics.filter fun d => !d.settledBy names := by
  have hr : v'.reported g' = fun e => (v.reported g e).filter fun d => !d.settledBy names :=
    funext (reported_settled h hs hk)
  rw [total, total, hr, List.filter_flatMap]

end Verifier

/-- A run depends on the declarations only. -/
theorem TypeGraph.WellFormed.verify_eq_of_types {g h : TypeGraph} (hg : g.WellFormed)
    (hh : h.WellFormed) (ht : g.types = h.types) (v : Verifier) : v.verify g = v.verify h := by
  have hv : g.vouches = h.vouches := by
    funext name
    rw [vouches, vouches, ht]
  have hr : v.reported g = v.reported h := by
    funext e
    rw [Verifier.reported, Verifier.reported, Verifier.verifyElement_eq_of_vouches hh hg hv]
  rw [v.verify_eq_total, v.verify_eq_total, markedElements, markedElements, ht, Verifier.total,
    Verifier.total, hr]

end Immutability
