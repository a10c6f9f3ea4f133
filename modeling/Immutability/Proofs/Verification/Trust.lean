import Immutability.Proofs.Graph.Union
import Immutability.Proofs.Verification.Exactness

/-! What a run without diagnostics says about the types behind the fields.

    A field is classified by the declaration of its type, which is never followed. All the same, if a
    run reports nothing, every chain of fields from a marked class stays among marked classes that
    keep their promise, until it takes one of four ways out (`FieldStep.Leaves`). The run checks each
    marked class by itself, so one step is enough: the type that a trusted field leads to has been
    checked, too. -/

namespace Immutability

/-! ### Chains of fields -/

/-- From a type to one of its fields, and on to the declaration that the field's type resolves to. -/
structure FieldStep where
  field : FieldDeclaration
  target : TypeDeclaration

/-- Steps that follow one another, from a type on. A type may be met again and again. -/
inductive TypeGraph.Chain (g : TypeGraph) : TypeDeclaration → List FieldStep → Prop
  | stop (t : TypeDeclaration) : g.Chain t []
  | step {t u : TypeDeclaration} {f : FieldDeclaration} {steps : List FieldStep}
      (hf : f ∈ t.fields) (hu : g.resolve? f.type = some u) (hs : g.Chain u steps) :
      g.Chain t (⟨f, u⟩ :: steps)

/-- The type at which steps arrive. -/
def destination : TypeDeclaration → List FieldStep → TypeDeclaration
  | t, [] => t
  | _, s :: steps => destination s.target steps

/-- The step goes where the run does not look: through a registered name or a marked field, to an
    enumeration that is not marked, or to a marked declaration that is declared as a field. -/
inductive FieldStep.Leaves (r : Registry) (s : FieldStep) : Prop
  | registered (h : r.contains s.field.type.identifier = true)
  | override (h : s.field.marked = true)
  | enumeration (hk : s.target.kind = .enumKind) (hm : s.target.marked = false)
  | fieldKind (hk : s.target.kind = .fieldKind) (hm : s.target.marked = true)

/-- The type is a marked class and keeps its promise: it is final, and its fields are private, final
    and of trusted types. -/
structure TypeDeclaration.Kept (g : TypeGraph) (r : Registry) (t : TypeDeclaration) : Prop where
  isClass : t.kind = .classKind
  marked : t.marked = true
  isFinal : t.isFinal = true
  field_isPrivate : ∀ f ∈ t.fields, f.isPrivate = true
  field_isFinal : ∀ f ∈ t.fields, f.isFinal = true
  field_trusted : ∀ f ∈ t.fields, ∀ name, classify g r f ≠ .invalid name

/-! ### Runs without diagnostics -/

/-- Nothing is found in the marked types of the graph. -/
def TypeGraph.Clean (g : TypeGraph) (r : Registry) : Prop :=
  ∀ x : Violation, x.owner ∈ g.types → x.owner.marked = true → ¬ x.Holds g r

/-- A run that skips nothing and reports nothing has found nothing. -/
theorem Verifier.clean_of_diagnostics_eq_nil {g : TypeGraph} (h : g.WellFormed) {v : Verifier}
    (hs : v.skipTypes = []) (hd : (v.verify g).diagnostics = []) : g.Clean v.registry := by
  intro x hx hm hh
  have hc : v.checks x.owner = true := by
    simp [Verifier.checks, Verifier.skips, skipped, hs, hm]
  have hv : x ∈ v.violations g := (mem_violations h).2 ⟨hx, hc, hh⟩
  rw [v.verify_diagnostics_eq_map g, List.map_eq_nil_iff] at hd
  rw [hd] at hv
  cases hv

namespace TypeGraph.Clean

variable {g : TypeGraph} {r : Registry} {t u : TypeDeclaration}

/-- A marked class in which nothing is found keeps its promise. -/
theorem kept (hc : g.Clean r) (h : g.WellFormed) (ht : t ∈ g.types) (hm : t.marked = true)
    (hk : t.kind = .classKind) : t.Kept g r where
  isClass := hk
  marked := hm
  isFinal := by
    rw [← Bool.not_eq_false]
    exact fun hf => hc (.notFinal t) ht hm ⟨hk, hf⟩
  field_isPrivate f hf := by
    rw [← Bool.not_eq_false]
    exact fun hp => hc (.fieldNotPrivate t f) ht hm ⟨hk, hf, hp⟩
  field_isFinal f hf := by
    rw [← Bool.not_eq_false]
    exact fun hl => hc (.fieldNotFinal t f) ht hm ⟨hk, hf, hl⟩
  field_trusted f hf name hi :=
    hc (.fieldInvalidType t f name) ht hm ⟨hk, hf, (h.classify_eq_invalid r f name).1 hi⟩

/-- A marked declaration in which nothing is found is a class, or it is declared as a field. -/
theorem kind_eq (hc : g.Clean r) (ht : t ∈ g.types) (hm : t.marked = true) :
    t.kind = .classKind ∨ t.kind = .fieldKind := by
  have hw : ¬ (t.kind = .interfaceKind ∨ t.kind = .enumKind ∨ t.kind = .annotationKind) :=
    hc (.wrongKind t) ht hm
  cases hk : t.kind <;> simp [hk] at hw ⊢

/-- A type that a reference resolves to is declared. -/
theorem mem_of_resolve? (h : g.WellFormed) {ref : TypeRef} (hu : g.resolve? ref = some u) :
    u ∈ g.types := by
  cases ref with
  | primitive s => cases hu
  | named name => exact (h.get?_eq_some_iff.1 hu).1

/-- A trusted field leads to a marked type, unless the step leaves. -/
theorem target_marked (h : g.WellFormed) (ht : t.Kept g r) {f : FieldDeclaration}
    (hf : f ∈ t.fields) (hu : g.resolve? f.type = some u)
    (hl : ¬ FieldStep.Leaves r ⟨f, u⟩) : u.marked = true := by
  cases hty : f.type with
  | primitive s => simp [hty, resolve?] at hu
  | named name =>
    rw [hty] at hu
    have hr : r.contains name = false := by
      rw [← Bool.not_eq_true]
      exact fun hr => hl (.registered (by simpa [hty, TypeRef.identifier] using hr))
    have hm : f.marked = false := by
      rw [← Bool.not_eq_true]
      exact fun hm => hl (.override hm)
    -- the field is not invalid, so the graph speaks for its type, and `u` is what speaks
    have hv : g.vouches name = true := by
      rw [← Bool.not_eq_false]
      exact fun hv => ht.field_trusted f hf name ((h.classify_eq_invalid r f name).2 ⟨hm, hty, hr, hv⟩)
    obtain ⟨u', hu', hn, hs⟩ := vouches_iff.1 hv
    obtain ⟨hmem, hname⟩ := h.get?_eq_some_iff.1 hu
    obtain rfl := h.eq_of_name_eq hu' hmem (hn.trans hname.symm)
    rcases hs with hs | hs
    · exact hs
    · rw [← Bool.not_eq_false]
      exact fun hm => hl (.enumeration hs hm)

/-- One step from a type that keeps its promise leads to another one, or leaves. -/
theorem step (hc : g.Clean r) (h : g.WellFormed) (ht : t.Kept g r) {f : FieldDeclaration}
    (hf : f ∈ t.fields) (hu : g.resolve? f.type = some u) :
    FieldStep.Leaves r ⟨f, u⟩ ∨ u.Kept g r := by
  by_cases hl : FieldStep.Leaves r ⟨f, u⟩
  · exact Or.inl hl
  · have hm : u.marked = true := target_marked h ht hf hu hl
    have hmem : u ∈ g.types := mem_of_resolve? h hu
    rcases hc.kind_eq hmem hm with hk | hk
    · exact Or.inr (hc.kept h hmem hm hk)
    · exact absurd (.fieldKind hk hm) hl

/-- The beginning of a chain leads to a type that keeps its promise, or one of its steps leaves. -/
theorem chain (hc : g.Clean r) (h : g.WellFormed) {steps : List FieldStep}
    (hs : g.Chain t steps) (ht : t.Kept g r) {taken : List FieldStep} (hp : taken <+: steps) :
    (∃ s ∈ taken, s.Leaves r) ∨ (destination t taken).Kept g r := by
  induction hs generalizing taken with
  | stop t =>
    rw [List.prefix_nil.1 hp]
    exact Or.inr ht
  | @step t u f steps hf hu hs ih =>
    cases taken with
    | nil => exact Or.inr ht
    | cons s taken =>
      obtain ⟨rfl, hp'⟩ := List.cons_prefix_cons.1 hp
      rcases hc.step h ht hf hu with hl | hk
      · exact Or.inl ⟨_, List.mem_cons_self .., hl⟩
      · rcases ih hk hp' with ⟨s, hs, hl⟩ | hd
        · exact Or.inl ⟨s, List.mem_cons_of_mem _ hs, hl⟩
        · exact Or.inr hd

end TypeGraph.Clean

/-- If a run over a graph with any history skips nothing and reports nothing, then every type that a
    chain of fields from a marked class arrives at is a marked class that keeps its promise, unless
    a step on the way there leaves. -/
theorem verify_chain_kept (history : List Operation) (v : Verifier) (hs : v.skipTypes = [])
    (hd : (v.verify (TypeGraph.run history)).diagnostics = []) {t : TypeDeclaration}
    (ht : t ∈ (TypeGraph.run history).types) (hm : t.marked = true) (hk : t.kind = .classKind)
    {steps : List FieldStep} (hc : (TypeGraph.run history).Chain t steps)
    {taken : List FieldStep} (hp : taken <+: steps) :
    (∃ s ∈ taken, s.Leaves v.registry) ∨
      (destination t taken).Kept (TypeGraph.run history) v.registry := by
  have h : (TypeGraph.run history).WellFormed := TypeGraph.wellFormed_run history
  have hclean := Verifier.clean_of_diagnostics_eq_nil h hs hd
  exact hclean.chain h hc (hclean.kept h ht hm hk) hp

/-- A list that points to itself and to a class that points back. -/
theorem verify_chain_kept_node :
    let sealed : Modifiers := .ofList [.privateAccess, .final]
    let node : TypeDeclaration :=
      { name := "a.Node", kind := .classKind, marked := true, modifiers := .ofList [.final]
        fields := [
          { name := "next", type := .named "a.Node", modifiers := sealed, owner := "a.Node" },
          { name := "peer", type := .named "a.Peer", modifiers := sealed, owner := "a.Node" }] }
    let peer : TypeDeclaration :=
      { name := "a.Peer", kind := .classKind, marked := true, modifiers := .ofList [.final]
        fields := [
          { name := "node", type := .named "a.Node", modifiers := sealed, owner := "a.Peer" }] }
    let history : List Operation := [.declarations [node, peer]]
    let g := TypeGraph.run history
    let v : Verifier := ⟨.empty, .empty, []⟩
    let steps : List FieldStep := (node.fields.zip [node, peer] ++ peer.fields.zip [node]).map
      fun (f, t) => ⟨f, t⟩
    (v.verify g).diagnostics = [] ∧ node ∈ g.types ∧ g.Chain node steps ∧
      ((∃ s ∈ steps, s.Leaves v.registry) ∨ (destination node steps).Kept g v.registry) := by
  intro sealed node peer history g v steps
  have ha : (∀ t ∈ [node, peer], t.Acceptable) ∧ ([node, peer].map (·.name)).Nodup := by
    decide +zetaReduce
  have h : g.WellFormed := TypeGraph.wellFormed_run history
  have hg : g.types.toList = [node, peer] := TypeGraph.toList_types_run_declarations ha.1 ha.2
  have ht : node ∈ g.types := by
    rw [← Array.mem_toList_iff, hg]
    exact .head _
  have ht' : peer ∈ g.types := by
    rw [← Array.mem_toList_iff, hg]
    exact .tail _ (.head _)
  have hn : g.resolve? (.named "a.Node") = some node := h.get?_eq_some_iff.2 ⟨ht, rfl⟩
  have hp : g.resolve? (.named "a.Peer") = some peer := h.get?_eq_some_iff.2 ⟨ht', rfl⟩
  -- all fields are sealed and lead to marked types
  have hv : v.violations g = [] := by
    rw [Verifier.violations, hg]
    simp [Verifier.checks, Verifier.skips, skipped, typeViolations, classViolations,
      fieldViolations, classify, TypeDeclaration.classOf?, TypeDeclaration.isFinal,
      FieldDeclaration.isFinal, FieldDeclaration.isPrivate, hn, hp, node, peer, sealed, v]
  have hd : (v.verify g).diagnostics = [] := by
    rw [Verifier.verify_diagnostics_eq_map, hv, List.map_nil]
  have hc : g.Chain node steps :=
    .step (.head _) hn <| .step (.tail _ (.head _)) hp <| .step (.head _) hn (.stop node)
  exact ⟨hd, ht, hc, verify_chain_kept history v rfl hd ht rfl rfl hc (List.prefix_refl steps)⟩

end Immutability
