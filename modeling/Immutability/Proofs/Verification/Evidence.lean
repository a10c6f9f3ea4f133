import Immutability.Proofs.Graph.Union
import Immutability.Proofs.Verification.Exactness

/-! Diagnostics that point at elements of the graph and tell the truth about them.

    A violation writes its place with the name of the type that is checked, and an element with the
    owner that it names itself; both are the same since every field in a graph knows its owner. The
    evidence is read off the element that breaks the rule, so what the rule asks for does not occur
    in it. -/

namespace Immutability

/-! ### Modifiers as evidence -/

/-- What has no separator in it and occurs in a row of parts occurs in one of them. -/
theorem exists_infix_of_intercalate {α : Type} {sep : α} {p : List α} (hp : p ≠ [])
    (hs : sep ∉ p) {parts : List (List α)} (h : p <:+: [sep].intercalate parts) :
    ∃ part ∈ parts, p <:+: part := by
  induction parts with
  | nil => exact absurd (List.infix_nil.1 h) hp
  | cons part parts ih =>
    cases parts with
    | nil => exact ⟨part, List.mem_singleton_self _, by simpa [List.intercalate] using h⟩
    | cons next parts =>
      have hi : [sep].intercalate (part :: next :: parts) =
          part ++ sep :: [sep].intercalate (next :: parts) := by
        simp [List.intercalate]
      rw [hi, List.infix_append_iff, List.infix_cons_iff] at h
      -- whatever reaches into the separator has it
      have hstart : ∀ {q}, q <+: sep :: [sep].intercalate (next :: parts) → q ⊆ p → q = [] := by
        rintro (_ | ⟨c, q⟩) hq hqp
        · rfl
        · obtain ⟨rfl, -⟩ := List.cons_prefix_cons.1 hq
          exact absurd (hqp List.mem_cons_self) hs
      rcases h with h | (h | h) | ⟨l, r, rfl, hl, hr⟩
      · exact ⟨part, List.mem_cons_self, h⟩
      · exact absurd (hstart h (List.Subset.refl _)) hp
      · obtain ⟨q, hq, hqp⟩ := ih h
        exact ⟨q, List.mem_cons_of_mem _ hq, hqp⟩
      · obtain rfl := hstart hr (List.subset_append_right _ _)
        exact ⟨part, List.mem_cons_self, by simpa using hl.isInfix⟩

/-- No keyword occurs in another one. -/
theorem Modifier.eq_of_infix {m n : Modifier} (h : m.name.toList <:+: n.name.toList) : m = n := by
  have hall : ∀ m ∈ all, ∀ n ∈ all, m.name.toList.Sublist n.name.toList → m = n := by decide
  exact hall m m.mem_all n n.mem_all h.sublist

namespace Modifiers

/-- The text shows the set: it lists the keywords of the members in canonical order with spaces between
    them, or says that there are none. -/
structure ShownBy (s : Modifiers) (text : String) : Prop where
  listed : s ≠ .empty → text = " ".intercalate ((Modifier.all.filter s.has).map Modifier.name)
  none_iff : text = "(none)" ↔ s = .empty

theorem toList_eq_nil_iff {s : Modifiers} : s.toList = [] ↔ s = .empty := by
  constructor
  · intro h
    rw [← ofList_toList s, h]
    rfl
  · rintro rfl
    rfl

/-- What is no space and occurs in the text of a set occurs in a keyword of a member. -/
theorem exists_infix_of_text {s : Modifiers} {p : List Char} (hp : p ≠ []) (hs : ' ' ∉ p)
    (h : p <:+: s.text.toList) : ∃ m, s.has m = true ∧ p <:+: m.name.toList := by
  rw [text, String.toList_intercalate] at h
  obtain ⟨part, hpart, hi⟩ := exists_infix_of_intercalate hp hs h
  obtain ⟨_, hname, rfl⟩ := List.mem_map.1 hpart
  obtain ⟨m, hm, rfl⟩ := List.mem_map.1 hname
  exact ⟨m, mem_toList.1 hm, hi⟩

theorem modifiersText_of_ne {s : Modifiers} (h : s ≠ .empty) :
    Violation.modifiersText s = s.text := by
  rw [Violation.modifiersText, if_neg]
  rwa [List.isEmpty_iff, toList_eq_nil_iff]

theorem shownBy_modifiersText (s : Modifiers) : s.ShownBy (Violation.modifiersText s) := by
  refine ⟨modifiersText_of_ne, fun hn => ?_, ?_⟩
  · by_contra h
    rw [modifiersText_of_ne h] at hn
    -- no keyword has a bracket
    have hb : ['('] <:+: s.text.toList := hn ▸ ⟨[], "none)".toList, rfl⟩
    obtain ⟨m, -, hm⟩ := exists_infix_of_text (by simp) (by decide) hb
    have hall : ∀ m ∈ Modifier.all, '(' ∉ m.name.toList := by decide
    exact hall m m.mem_all (hm.subset List.mem_cons_self)
  · rintro rfl
    rfl

/-- The keyword of a modifier that is not in a set does not occur in the text that shows the set. -/
theorem not_infix_modifiersText {s : Modifiers} {m : Modifier} (hm : s.has m = false) :
    ¬ m.name.toList <:+: (Violation.modifiersText s).toList := by
  have hword : ∀ m ∈ Modifier.all, m.name.toList ≠ [] ∧ ' ' ∉ m.name.toList ∧
      ¬ m.name.toList.Sublist "(none)".toList := by decide
  obtain ⟨hne, hs, hnone⟩ := hword m m.mem_all
  intro h
  by_cases he : s = .empty
  · subst he
    exact hnone h.sublist
  · rw [modifiersText_of_ne he] at h
    obtain ⟨n, hn, hi⟩ := exists_infix_of_text hne hs h
    rw [← Modifier.eq_of_infix hi, hm] at hn
    cases hn

end Modifiers

/-! ### Diagnostics as evidence -/

namespace Diagnostic

/-- The diagnostic asks for a modifier that the set does not have, and shows the set. The keyword that
    it asks for does not occur in what it shows. -/
def Misses (d : Diagnostic) (m : Modifier) (s : Modifiers) : Prop :=
  s.has m = false ∧ d.expected = some m.name ∧
    ∃ text, d.actual = some text ∧ s.ShownBy text ∧ ¬ m.name.toList <:+: text.toList

/-- The diagnostic is about a type or one of its fields, marked or not: it gives the place of this
    element, and its evidence is true of the element. -/
inductive TrueOf (registry : Registry) (t : TypeDeclaration) (d : Diagnostic) : Prop
  | wrongKind (hr : d.rule = .wrongKind) (hl : d.location = some (Element.type t).location)
      (ha : d.actual = some t.kind.name) (hk : t.kind.name ≠ "class")
  | notFinal (hr : d.rule = .notFinal) (hl : d.location = some (Element.type t).location)
      (hm : d.Misses .final t.modifiers)
  | fieldNotFinal {f : FieldDeclaration} (hf : f ∈ t.fields) (hr : d.rule = .fieldNotFinal)
      (hl : d.location = some (Element.field t f).location) (hm : d.Misses .final f.modifiers)
  | fieldNotPrivate {f : FieldDeclaration} (hf : f ∈ t.fields) (hr : d.rule = .fieldNotPrivate)
      (hl : d.location = some (Element.field t f).location)
      (hm : d.Misses .privateAccess f.modifiers)
  | fieldInvalidType {f : FieldDeclaration} (hf : f ∈ t.fields) (hr : d.rule = .fieldInvalidType)
      (hl : d.location = some (Element.field t f).location)
      (ha : d.actual = some f.type.identifier)
      (hn : registry.contains f.type.identifier = false)

end Diagnostic

namespace Violation

/-- A field that knows its owner stands where a violation says that it stands. -/
theorem fieldLocation_eq {t : TypeDeclaration} {f : FieldDeclaration} (h : f.owner = t.name) :
    fieldLocation t f = (Element.field t f).location := by
  rw [fieldLocation, Element.location, FieldDeclaration.qualifiedName, h]

theorem misses_diagnose {x : Violation} {s : Modifiers} {m : Modifier} (hm : s.has m = false)
    (he : x.expected = m.name) (ha : x.actual = modifiersText s) (severities : Severities) :
    (x.diagnose severities).Misses m s :=
  ⟨hm, congrArg some he, _, congrArg some ha, s.shownBy_modifiersText,
    Modifiers.not_infix_modifiersText hm⟩

/-- The diagnostic of a violation that holds is true of the type. -/
theorem trueOf_diagnose {g : TypeGraph} {r : Registry} {x : Violation} (ho : x.owner.Owned)
    (hx : x.Holds g r) (severities : Severities) : (x.diagnose severities).TrueOf r x.owner := by
  have hplace : ∀ f ∈ x.owner.fields,
      some (fieldLocation x.owner f) = some (Element.field x.owner f).location :=
    fun f hf => congrArg some (fieldLocation_eq (ho.owner_eq f hf))
  cases x with
  | wrongKind t =>
    have hk : t.kind.name ≠ "class" := by
      rcases hx with hk | hk | hk <;> rw [hk] <;> decide
    exact .wrongKind rfl rfl rfl hk
  | notFinal t => exact .notFinal rfl rfl (misses_diagnose hx.2 rfl rfl severities)
  | fieldNotFinal t f =>
    obtain ⟨-, hf, hm⟩ := hx
    exact .fieldNotFinal hf rfl (hplace f hf) (misses_diagnose hm rfl rfl severities)
  | fieldNotPrivate t f =>
    obtain ⟨-, hf, hm⟩ := hx
    exact .fieldNotPrivate hf rfl (hplace f hf) (misses_diagnose hm rfl rfl severities)
  | fieldInvalidType t f name =>
    obtain ⟨-, hf, -, ht, hn, -⟩ := hx
    have hi : name = f.type.identifier := by rw [ht]; rfl
    subst hi
    exact .fieldInvalidType hf rfl (hplace f hf) rfl hn

end Violation

/-- After every history of a graph, each diagnostic of a run is about a type of the graph that is
    marked and not skipped, or about one of its fields: its place is the place of this element. If
    it asks for a modifier, it shows exactly the modifiers of the element, or that there are none;
    if it finds fault with a kind, it shows the kind of the type, which is not that of a class; if it
    finds fault with the type of a field, it shows that type, which is not known to be immutable. -/
theorem verify_evidence (history : List Operation) (v : Verifier) {d : Diagnostic}
    (hd : d ∈ (v.verify (TypeGraph.run history)).diagnostics) :
    ∃ t ∈ (TypeGraph.run history).types, t.marked = true ∧ skipped v.skipTypes t.name = false ∧
      d.TrueOf v.registry t := by
  have h : (TypeGraph.run history).WellFormed := TypeGraph.wellFormed_run history
  rw [v.verify_diagnostics_eq_map] at hd
  obtain ⟨x, hx, rfl⟩ := List.mem_map.1 hd
  obtain ⟨ht, hc, hh⟩ := (mem_violations h).1 hx
  rw [Verifier.checks, Bool.and_eq_true, Bool.not_eq_true'] at hc
  exact ⟨x.owner, ht, hc.1, hc.2, Violation.trueOf_diagnose (h.owned _ ht) hh v.severities⟩

/-- A class with a public static field, whose owner is written by the graph. -/
theorem verify_evidence_point :
    let x : FieldDeclaration :=
      { name := "x", type := .primitive "int", owner := "a.Point"
        modifiers := .ofList [.staticMember, .final, .publicAccess] }
    let point : TypeDeclaration :=
      { name := "a.Point", kind := .classKind, marked := true, fields := [x] }
    let g := TypeGraph.run [.declarations [point]]
    let v : Verifier := { registry := .empty }
    let d := (Violation.fieldNotPrivate point x).diagnose .empty
    d ∈ (v.verify g).diagnostics ∧ d.actual = some "public static final" ∧
      ∃ t ∈ g.types, t.marked = true ∧ skipped v.skipTypes t.name = false ∧
        d.TrueOf v.registry t := by
  intro x point g v d
  have ha : point.Acceptable := by decide +revert
  have hg : g.types.toList = [point] :=
    TypeGraph.toList_types_run_declarations (by simpa using ha) (by simp [point])
  have hp : point ∈ g.types := by
    rw [← Array.mem_toList_iff, hg]
    exact List.mem_singleton_self _
  have hx : Violation.fieldNotPrivate point x ∈ v.violations g :=
    (mem_violations (TypeGraph.wellFormed_run _)).2 ⟨hp, rfl, rfl, List.mem_singleton_self _, rfl⟩
  have hd : d ∈ (v.verify g).diagnostics := by
    rw [v.verify_diagnostics_eq_map]
    exact List.mem_map_of_mem hx
  have hs : d.actual = some "public static final" := by decide
  exact ⟨hd, hs, verify_evidence _ v hd⟩

end Immutability
