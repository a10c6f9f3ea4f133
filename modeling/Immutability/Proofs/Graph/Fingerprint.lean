import Immutability.Proofs.Graph.Reload
import Immutability.Proofs.Json.Line
import Immutability.Proofs.Sha256
import Immutability.Proofs.Text.Bytes

/-! What a fingerprint identifies.

    The digested bytes are lines, one for each declaration (`digested`). No line holds a line break
    of its own, so the bytes tell the lines; and a declaration can be read from its line, so the lines
    tell the declarations. What the fingerprint identifies beyond that is up to the digest. -/

namespace Immutability

open Json

/-! ### Lines -/

/-- A line ends at the first line break. -/
theorem line_inj : ∀ {l m rest rest' : List Char}, '\n' ∉ l → '\n' ∉ m →
    l ++ '\n' :: rest = m ++ '\n' :: rest' → l = m ∧ rest = rest'
  | [], [], _, _, _, _, h => ⟨rfl, (List.cons.inj h).2⟩
  | [], _ :: _, _, _, _, hm, h => absurd ((List.cons.inj h).1 ▸ List.mem_cons_self ..) hm
  | _ :: _, [], _, _, hl, _, h => absurd ((List.cons.inj h).1.symm ▸ List.mem_cons_self ..) hl
  | c :: l, d :: m, _, _, hl, hm, h => by
    obtain ⟨rfl, ht⟩ := List.cons.inj h
    obtain ⟨rfl, hr⟩ := line_inj (fun hc => hl (List.mem_cons_of_mem _ hc))
      (fun hc => hm (List.mem_cons_of_mem _ hc)) ht
    exact ⟨rfl, hr⟩

/-- Lines that hold no line break of their own are told by what they make up together. -/
theorem lines_inj : ∀ {ls ms : List (List Char)}, (∀ l ∈ ls, '\n' ∉ l) → (∀ m ∈ ms, '\n' ∉ m) →
    ls.flatMap (· ++ ['\n']) = ms.flatMap (· ++ ['\n']) → ls = ms
  | [], [], _, _, _ => rfl
  | [], m :: ms, _, _, h => by simp at h
  | l :: ls, [], _, _, h => by simp at h
  | l :: ls, m :: ms, hl, hm, h => by
    obtain ⟨hl, hls⟩ := List.forall_mem_cons.1 hl
    obtain ⟨hm, hms⟩ := List.forall_mem_cons.1 hm
    simp only [List.flatMap_cons, List.append_assoc, List.singleton_append] at h
    obtain ⟨rfl, hr⟩ := line_inj hl hm h
    rw [lines_inj hls hms hr]

namespace TypeDeclaration

/-- The line of a declaration holds no line break but the one at its end. -/
theorem newline_notMem_compact (t : TypeDeclaration) : '\n' ∉ t.toJson.compact.toList := by
  rw [compact, String.toList_ofList]
  exact (printable_compactChars t.toJson t.readAs.integral).newline_notMem

/-- A declaration is told by its text. -/
theorem compact_inj {t u : TypeDeclaration} (h : t.toJson.compact = u.toJson.compact) : t = u :=
  t.readAs.eq_of_compact_eq u.readAs h

end TypeDeclaration

namespace TypeGraph

/-- The bytes of a graph's declarations: the compact JSON of each, followed by a line break. -/
def digested (g : TypeGraph) : List UInt8 :=
  g.types.toList.flatMap fun t => t.toJson.compact.toUTF8.toList ++ "\n".toUTF8.toList

theorem bytes_canonicalText (g : TypeGraph) : g.canonicalText.toUTF8.toList = g.digested := by
  rw [canonicalText, bytes_join, List.flatMap_map, digested]
  congr 1
  funext t
  exact bytes_append _ _

theorem toList_canonicalText (g : TypeGraph) :
    g.canonicalText.toList =
      (g.types.toList.map fun t => t.toJson.compact.toList).flatMap (· ++ ['\n']) := by
  simp [canonicalText, String.toList_join, List.flatMap_map, TypeDeclaration.canonicalLine]

/-- The digested bytes tell the declarations. -/
theorem digested_inj {g h : TypeGraph} : g.digested = h.digested ↔ g.types = h.types := by
  rw [← bytes_canonicalText, ← bytes_canonicalText, bytes_inj]
  constructor
  · intro he
    have hl := congrArg String.toList he
    rw [toList_canonicalText, toList_canonicalText] at hl
    have hm := lines_inj (by simp [TypeDeclaration.newline_notMem_compact])
      (by simp [TypeDeclaration.newline_notMem_compact]) hl
    refine Array.toList_inj.1 (List.map_injective_iff.2 ?_ hm)
    exact fun t u htu => TypeDeclaration.compact_inj (String.toList_inj.1 htu)
  · intro he
    rw [canonicalText, canonicalText, he]

theorem fingerprint_eq (g : TypeGraph) : g.fingerprint = (Sha256.digest g.digested).hex := by
  rw [fingerprint, Sha256.hexDigest, bytes_canonicalText]

/-- For graphs with any histories the fingerprint is the digest of bytes that tell the declarations
    and nothing else: they are the same exactly for the same declarations in the same order, those
    of a complete merge are those of the one graph followed by those of the other, and metadata is
    not among them. So two graphs have the same fingerprint exactly if they hold the same
    declarations or their bytes are different bytes with the same digest. -/
theorem run_fingerprint (history history' : List Operation) :
    let g := run history
    let h := run history'
    g.fingerprint = (Sha256.digest g.digested).hex ∧
    (g.digested = h.digested ↔ g.types = h.types) ∧
    (∀ m, g.merge h = (m, none) → m.digested = g.digested ++ h.digested) ∧
    (∀ metadata, { g with metadata := metadata }.digested = g.digested) ∧
    (g.fingerprint = h.fingerprint ↔
      g.types = h.types ∨
        g.digested ≠ h.digested ∧ Sha256.digest g.digested = Sha256.digest h.digested) := by
  intro g h
  have hh : h.WellFormed := wellFormed_run history'
  refine ⟨g.fingerprint_eq, digested_inj, ?_, fun _ => rfl, ?_⟩
  · intro m hm
    rw [digested, hh.toList_types_of_merge hm, List.flatMap_append]
    rfl
  · rw [fingerprint_eq, fingerprint_eq]
    constructor
    · intro he
      by_cases hd : g.digested = h.digested
      · exact Or.inl (digested_inj.1 hd)
      · exact Or.inr ⟨hd, Sha256.State.hex_inj he⟩
    · rintro (ht | ⟨-, hd⟩)
      · rw [digested_inj.2 ht]
      · rw [hd]

/-- A class that holds a point, and the class of points in another graph. -/
theorem run_fingerprint_holder_point :
    let holder : TypeDeclaration :=
      { name := "a.Holder", kind := .classKind
        fields := [{ name := "point", type := .named "b.Point" }] }
    let point : TypeDeclaration := { name := "b.Point", kind := .classKind }
    let g := run [.declarations [holder]]
    let h := run [.declarations [point]]
    ∃ m, g.merge h = (m, none) ∧ m.digested = g.digested ++ h.digested := by
  intro holder point g h
  have hg : g.types.toList = [holder.stamped] :=
    toList_types_run_declarations (by decide +revert) (by simp)
  have hh : h.types.toList = [point.stamped] :=
    toList_types_run_declarations (by decide +revert) (by simp)
  have hd : g.Disjoint h := by
    simp only [Disjoint, ← Array.mem_toList_iff, hg, hh, List.forall_mem_singleton]
    decide
  obtain ⟨m, hm, -⟩ := (wellFormed_run [.declarations [holder]]).merge_of_disjoint
    (wellFormed_run [.declarations [point]]) hd
  exact ⟨m, hm, (run_fingerprint [.declarations [holder]] [.declarations [point]]).2.2.1 m hm⟩

end TypeGraph

end Immutability
