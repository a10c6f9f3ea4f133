import Immutability.Proofs.Classification
import Immutability.Proofs.Verification.Outcome
import Mathlib.Data.Prod.Lex
import Mathlib.Data.List.Nodup

/-! A run reports every violation once and nothing else.

    What breaks a rule is said of a declaration by itself (`Violation.Holds`): of its kind and
    modifiers, and of the names that the registry and the graph speak for. The order of the
    violations is that of the declarations, of a type before its fields, and of the rules
    (`Violation.position`). The main statement, `verify_exact`, says that the diagnostics of a run
    are those of the violations of checked types in increasing order. -/

namespace Immutability

/-- What is said of the declaration is so: it does break the rule. -/
def Violation.Holds (g : TypeGraph) (r : Registry) : Violation → Prop
  | wrongKind t => t.kind = .interfaceKind ∨ t.kind = .enumKind ∨ t.kind = .annotationKind
  | notFinal t => t.kind = .classKind ∧ t.isFinal = false
  | fieldNotFinal t f => t.kind = .classKind ∧ f ∈ t.fields ∧ f.isFinal = false
  | fieldNotPrivate t f => t.kind = .classKind ∧ f ∈ t.fields ∧ f.isPrivate = false
  | fieldInvalidType t f name => t.kind = .classKind ∧ f ∈ t.fields ∧ f.marked = false ∧
      f.type = .named name ∧ r.contains name = false ∧ g.vouches name = false

/-! ### Which violations are found -/

section Found

variable {g : TypeGraph} {r : Registry} {t : TypeDeclaration} {x : Violation}

/-- What is found in a field. -/
theorem mem_fieldViolations (h : g.WellFormed) {f : FieldDeclaration} :
    x ∈ fieldViolations g r t f ↔
      x = .fieldNotFinal t f ∧ f.isFinal = false ∨ x = .fieldNotPrivate t f ∧ f.isPrivate = false ∨
        ∃ name, x = .fieldInvalidType t f name ∧ f.marked = false ∧ f.type = .named name ∧
          r.contains name = false ∧ g.vouches name = false := by
  have hc : ∀ name, _ := h.classify_eq_invalid r f
  simp only [fieldViolations, List.mem_append, or_assoc]
  refine or_congr ?_ (or_congr ?_ ?_)
  · cases f.isFinal <;> simp
  · cases f.isPrivate <;> simp
  · simp only [← hc]
    cases classify g r f <;> simp

theorem mem_classViolations :
    x ∈ classViolations g r t ↔
      x = .notFinal t ∧ t.isFinal = false ∨ ∃ f ∈ t.fields, x ∈ fieldViolations g r t f := by
  simp only [classViolations, List.mem_append, List.mem_flatMap]
  refine or_congr ?_ Iff.rfl
  cases t.isFinal <;> simp

/-- What is found in a type is what holds of it. -/
theorem mem_typeViolations (h : g.WellFormed) :
    x ∈ typeViolations g r t ↔ x.owner = t ∧ x.Holds g r := by
  unfold typeViolations
  cases hk : t.kind with
  | classKind =>
    simp only [mem_classViolations, mem_fieldViolations h]
    cases x <;> simp only [Violation.Holds, Violation.owner] <;> grind
  | _ => cases x <;> simp only [Violation.Holds, Violation.owner] <;> grind

/-- A run finds what holds of the types that are checked. -/
theorem mem_violations (h : g.WellFormed) {v : Verifier} :
    x ∈ v.violations g ↔ x.owner ∈ g.types ∧ v.checks x.owner = true ∧ x.Holds g v.registry := by
  simp only [Verifier.violations, List.mem_flatMap, List.mem_filter, mem_typeViolations h,
    Array.mem_toList_iff]
  constructor
  · rintro ⟨t, ⟨ht, hv⟩, rfl, hx⟩
    exact ⟨ht, hv, hx⟩
  · rintro ⟨ht, hv, hx⟩
    exact ⟨_, ⟨ht, hv⟩, rfl, hx⟩

end Found

/-! ### In which order they are found -/

/-- The place of a rule in check order. -/
def Rule.rank (rule : Rule) : Nat := Rule.all.idxOf rule

namespace Violation

/-- The place within a type: the type itself, and then its fields in declared order. -/
def place : Violation → Nat
  | wrongKind _ | notFinal _ => 0
  | fieldNotFinal t f | fieldNotPrivate t f | fieldInvalidType t f _ => t.fields.idxOf f + 1

/-- Where a violation stands: by the type in order of insertion, then by the place within the type,
    then by the rule. -/
def position (g : TypeGraph) (x : Violation) : Nat ×ₗ Nat ×ₗ Nat :=
  toLex (g.types.toList.idxOf x.owner, toLex (x.place, x.rule.rank))

theorem position_lt_iff {g : TypeGraph} {x y : Violation} :
    x.position g < y.position g ↔
      g.types.toList.idxOf x.owner < g.types.toList.idxOf y.owner ∨
        g.types.toList.idxOf x.owner = g.types.toList.idxOf y.owner ∧
          (x.place < y.place ∨ x.place = y.place ∧ x.rule.rank < y.rule.rank) := by
  simp only [position, Prod.Lex.toLex_lt_toLex]

end Violation

/-- In a list without repetition the places increase along the list. -/
theorem pairwise_idxOf_lt {α : Type} [DecidableEq α] {l : List α} (h : l.Nodup) :
    l.Pairwise fun a b => l.idxOf a < l.idxOf b := by
  rw [List.pairwise_iff_getElem]
  intro i j hi hj hij
  rw [h.idxOf_getElem i hi, h.idxOf_getElem j hj]
  exact hij

section Order

variable {g : TypeGraph} {r : Registry} {t : TypeDeclaration} {x : Violation}

theorem place_of_mem_fieldViolations {f : FieldDeclaration} (hx : x ∈ fieldViolations g r t f) :
    x.owner = t ∧ x.place = t.fields.idxOf f + 1 := by
  simp only [fieldViolations, List.mem_append] at hx
  rcases hx with (hx | hx) | hx
  · split at hx <;> simp_all [Violation.owner, Violation.place]
  · split at hx <;> simp_all [Violation.owner, Violation.place]
  · split at hx <;> simp_all [Violation.owner, Violation.place]

theorem owner_of_mem_typeViolations (hx : x ∈ typeViolations g r t) : x.owner = t := by
  unfold typeViolations at hx
  split at hx
  · rcases mem_classViolations.1 hx with ⟨rfl, -⟩ | ⟨f, -, hf⟩
    · rfl
    · exact (place_of_mem_fieldViolations hf).1
  all_goals simp_all [Violation.owner]

theorem Verifier.owner_of_mem_violationsIn {v : Verifier} (hx : x ∈ v.violationsIn g t) :
    x.owner = t := by
  rw [violationsIn] at hx
  split at hx
  · exact owner_of_mem_typeViolations hx
  · cases hx

/-- What the other types of a well-formed graph break is not a violation of the type. -/
theorem Verifier.owner_ne_of_around (v : Verifier) (h : g.WellFormed)
    {before after : List TypeDeclaration} (ht : g.types.toList = before ++ t :: after) :
    ∀ x ∈ before.flatMap (v.violationsIn g) ++ after.flatMap (v.violationsIn g), x.owner ≠ t := by
  intro x hx he
  rw [← List.flatMap_append] at hx
  obtain ⟨u, hu, hx⟩ := List.mem_flatMap.1 hx
  rw [owner_of_mem_violationsIn hx] at he
  exact h.name_ne_of_around ht u hu (congrArg TypeDeclaration.name he)

theorem fieldViolations_increasing (f : FieldDeclaration) :
    (fieldViolations g r t f).Pairwise fun x y => x.position g < y.position g := by
  simp only [fieldViolations, Violation.position_lt_iff]
  cases f.isFinal <;> cases f.isPrivate <;> cases classify g r f <;>
    simp [Violation.owner, Violation.place, Violation.rule] <;> decide

theorem classViolations_increasing (hn : t.fields.Nodup) :
    (classViolations g r t).Pairwise fun x y => x.position g < y.position g := by
  rw [classViolations, List.pairwise_append, List.pairwise_flatMap]
  refine ⟨?_, ⟨fun f _ => fieldViolations_increasing f, ?_⟩, ?_⟩
  · split <;> simp
  · refine (pairwise_idxOf_lt hn).imp ?_
    rintro f f' hlt x hx y hy
    obtain ⟨hxo, hxp⟩ := place_of_mem_fieldViolations hx
    obtain ⟨hyo, hyp⟩ := place_of_mem_fieldViolations hy
    rw [Violation.position_lt_iff, hxo, hyo, hxp, hyp]
    exact Or.inr ⟨rfl, Or.inl (Nat.succ_lt_succ hlt)⟩
  · rintro x hx y hy
    obtain ⟨f, -, hf⟩ := List.mem_flatMap.1 hy
    obtain ⟨hyo, hyp⟩ := place_of_mem_fieldViolations hf
    have hx' : x = .notFinal t := by
      split at hx
      · cases hx
      · exact List.mem_singleton.1 hx
    subst hx'
    rw [Violation.position_lt_iff, hyo, hyp]
    exact Or.inr ⟨rfl, Or.inl (Nat.succ_pos _)⟩

theorem typeViolations_increasing (hn : t.fields.Nodup) :
    (typeViolations g r t).Pairwise fun x y => x.position g < y.position g := by
  unfold typeViolations
  split
  · exact classViolations_increasing hn
  all_goals simp

/-- A run finds the violations in the order of their positions. -/
theorem violations_increasing (h : g.WellFormed) (v : Verifier) :
    (v.violations g).Pairwise fun x y => x.position g < y.position g := by
  rw [Verifier.violations, List.pairwise_flatMap]
  refine ⟨?_, ?_⟩
  · rintro t ht
    have ht : t ∈ g.types := Array.mem_toList_iff.1 (List.mem_filter.1 ht).1
    exact typeViolations_increasing (List.Nodup.of_map _ (h.owned t ht).distinct)
  · refine ((pairwise_idxOf_lt (List.Nodup.of_map _ h.names_nodup)).filter _).imp ?_
    rintro t u hlt x hx y hy
    rw [Violation.position_lt_iff, owner_of_mem_typeViolations hx, owner_of_mem_typeViolations hy]
    exact Or.inl hlt

end Order

/-! ### What tells diagnostics apart -/

/-- A beginning that is followed by one character here and by another there is the same for both. -/
theorem eq_of_append_cons_eq {x y : Char} (hxy : x ≠ y) : ∀ {a b c d c' d' : List Char},
    a ++ x :: c = b ++ x :: d → a ++ y :: c' = b ++ y :: d' → a = b
  | [], [], _, _, _, _, _, _ => rfl
  | [], z :: b, _, _, _, _, h, h' => by
    obtain ⟨hx, -⟩ := List.cons.inj h
    obtain ⟨hy, -⟩ := List.cons.inj h'
    exact absurd (hx.trans hy.symm) hxy
  | z :: a, [], _, _, _, _, h, h' => by
    obtain ⟨hx, -⟩ := List.cons.inj h
    obtain ⟨hy, -⟩ := List.cons.inj h'
    exact absurd (hx.symm.trans hy) hxy
  | z :: a, w :: b, _, _, _, _, h, h' => by
    obtain ⟨rfl, ht⟩ := List.cons.inj h
    obtain ⟨-, ht'⟩ := List.cons.inj h'
    rw [eq_of_append_cons_eq hxy ht ht']

namespace Violation

/-- A message starts with the name of the type and a blank. -/
theorem message_eq (x : Violation) :
    ∃ tail, x.message.toList = x.owner.name.toList ++ ' ' :: tail := by
  cases x <;> simp only [message, owner, String.toList_append, List.append_assoc] <;>
    exact ⟨_, rfl⟩

/-- A field is told by its location and message: the name of its type ends where a dot follows in the
    one and a blank in the other. -/
theorem names_eq_of_field {x y : Violation} {c d : String} (hm : x.message = y.message)
    (hl : x.owner.name ++ "." ++ c = y.owner.name ++ "." ++ d) :
    x.owner.name = y.owner.name ∧ c = d := by
  obtain ⟨p, hp⟩ := x.message_eq
  obtain ⟨q, hq⟩ := y.message_eq
  have hl' := congrArg String.toList hl
  simp only [String.toList_append, List.append_assoc] at hl'
  rw [hm, hq] at hp
  have hn : x.owner.name = y.owner.name :=
    String.toList_inj.1 (eq_of_append_cons_eq (by decide) hl' hp.symm)
  refine ⟨hn, ?_⟩
  rw [hn] at hl'
  exact String.toList_inj.1 (by simpa using hl')

/-- Different violations that hold in a well-formed graph have different diagnostics. -/
theorem diagnose_injective {g : TypeGraph} (h : g.WellFormed) {r : Registry} {s : Severities}
    {x y : Violation} (hxt : x.owner ∈ g.types) (hyt : y.owner ∈ g.types) (hx : x.Holds g r)
    (hy : y.Holds g r) (he : x.diagnose s = y.diagnose s) : x = y := by
  have hrule : x.rule = y.rule := congrArg Diagnostic.rule he
  have hm : x.message = y.message := congrArg Diagnostic.message he
  have hloc : x.location = y.location := Option.some.inj (congrArg Diagnostic.location he)
  have hact : x.actual = y.actual := Option.some.inj (congrArg Diagnostic.actual he)
  have hel : x.location.element = y.location.element := congrArg Location.element hloc
  cases x <;> cases y <;> cases hrule
  case wrongKind.wrongKind t u => exact congrArg _ (h.eq_of_name_eq hxt hyt hel)
  case notFinal.notFinal t u => exact congrArg _ (h.eq_of_name_eq hxt hyt hel)
  case fieldNotFinal.fieldNotFinal t f u f' =>
    obtain ⟨hn, hf⟩ := names_eq_of_field hm hel
    obtain ⟨rfl, rfl⟩ : t = u ∧ f = f' := h.eq_of_names_eq hxt hyt hx.2.1 hy.2.1 hn hf
    rfl
  case fieldNotPrivate.fieldNotPrivate t f u f' =>
    obtain ⟨hn, hf⟩ := names_eq_of_field hm hel
    obtain ⟨rfl, rfl⟩ : t = u ∧ f = f' := h.eq_of_names_eq hxt hyt hx.2.1 hy.2.1 hn hf
    rfl
  case fieldInvalidType.fieldInvalidType t f name u f' name' =>
    obtain ⟨hn, hf⟩ := names_eq_of_field hm hel
    obtain ⟨rfl, rfl⟩ : t = u ∧ f = f' := h.eq_of_names_eq hxt hyt hx.2.1 hy.2.1 hn hf
    exact congrArg _ hact

end Violation

/-! ### Exactness -/

/-- After every history of a graph, a run reports in increasing order of their positions the
    violations of the types that are checked: those that hold, and no others. Each has a diagnostic
    of its own, so none is reported twice; a marked field and a marked declaration that is declared
    as a field report nothing. -/
theorem verify_exact (history : List Operation) (v : Verifier) :
    let g := TypeGraph.run history
    (∃ xs : List Violation,
      (v.verify g).diagnostics = xs.map (·.diagnose v.severities) ∧
      xs.Pairwise (fun x y => x.position g < y.position g) ∧
      ∀ x, x ∈ xs ↔ x.owner ∈ g.types ∧ x.owner.marked = true ∧
        skipped v.skipTypes x.owner.name = false ∧ x.Holds g v.registry) ∧
    (v.verify g).diagnostics.Nodup ∧
    ∀ e : Element, e.kind = .fieldKind → v.verifyElement g e = [] := by
  intro g
  have h : g.WellFormed := TypeGraph.wellFormed_run history
  refine ⟨⟨v.violations g, v.verify_diagnostics_eq_map g, violations_increasing h v, ?_⟩, ?_, ?_⟩
  · intro x
    simp [mem_violations h, Verifier.checks, Verifier.skips, and_assoc]
  · rw [v.verify_diagnostics_eq_map g]
    refine List.Nodup.map_on ?_ ((violations_increasing h v).imp fun hlt he => ?_)
    · rintro x hx y hy he
      obtain ⟨hxt, -, hxh⟩ := (mem_violations h).1 hx
      obtain ⟨hyt, -, hyh⟩ := (mem_violations h).1 hy
      exact Violation.diagnose_injective h hxt hyt hxh hyh he
    · exact absurd hlt (he ▸ lt_irrefl _)
  · rintro (t | ⟨t, f⟩) he
    · have hk : t.kind = .fieldKind := he
      simp [Verifier.verifyElement, elementViolations, typeViolations, hk]
    · rfl

end Immutability
