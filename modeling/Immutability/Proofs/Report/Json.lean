import Immutability.Proofs.Diagnostic.Json
import Immutability.Proofs.Json.Free
import Immutability.Report.Json
import Mathlib.Algebra.Group.Nat.Defs

/-! Reports read as they were written.

    A report comes back from its text if its counts fit into 64 bits and its metadata is a free-form
    value that a reader can give. Metadata that is nothing is the one exception: it is written, but
    read as absent. A report that has been read has neither, so from then on it comes back. -/

namespace Immutability

open Json

/-! ### Versions and counts -/

/-- A number of 32 bits is read exactly. -/
theorem ReportVersion.readAs (v : ReportVersion) : v.toJson.ReadAs ReportVersion.ofTree v := by
  have hn : ∀ n : UInt32, (Json.integer n.toNat).ReadAs Read.versionPart n.toNat := fun n =>
    .natural n.toNat_lt_size (by decide) "u32"
  have hw : Writes ReportVersion.members
      [("major", .integer v.major.toNat), ("minor", .integer v.minor.toNat)]
      (v.major.toNat, v.minor.toNat, ()) :=
    .also (hn v.major) <| .also (hn v.minor) .done
  have hr : v.toJson.ReadAs ReportVersion.ofTree (ofValues (v.major.toNat, v.minor.toNat, ())) :=
    (hw.readAs (by decide) "ReportVersion").map
  rwa [ofValues, UInt32.ofNat_toNat, UInt32.ofNat_toNat] at hr

/-- The counts fit into 64 bits. -/
structure Summary.Fits (s : Summary) : Prop where
  total : s.total < 2 ^ 64
  errors : s.errors < 2 ^ 64
  warnings : s.warnings < 2 ^ 64
  notes : s.notes < 2 ^ 64
  elementsChecked : s.elementsChecked < 2 ^ 64
  classesVerified : s.classesVerified < 2 ^ 64

namespace Summary

theorem readAs {s : Summary} (h : s.Fits) : s.toJson.ReadAs Summary.ofTree s := by
  have hn : ∀ {n : Nat}, n < 2 ^ 64 → (Json.integer n).ReadAs Read.count n := fun hn =>
    .natural hn (Nat.le_refl _) "usize"
  have hw : Writes Summary.members
      [("total", .integer s.total), ("errors", .integer s.errors),
        ("warnings", .integer s.warnings), ("notes", .integer s.notes),
        ("elements_checked", .integer s.elementsChecked),
        ("classes_verified", .integer s.classesVerified)]
      (s.total, s.errors, s.warnings, s.notes, s.elementsChecked, s.classesVerified, ()) :=
    .also (hn h.total) <| .also (hn h.errors) <| .also (hn h.warnings) <| .also (hn h.notes) <|
      .also (hn h.elementsChecked) <| .also (hn h.classesVerified) .done
  exact (hw.readAs (by decide) "ReportSummary").map

/-- Counts that have been read fit. -/
theorem fits_of_ofTree {s : Summary} {t : Tree} (h : Summary.ofTree t = .ok s) : s.Fits := by
  have hn : ∀ {key : String} {n : Nat}, (Member.required key Read.count).Gives n → n < 2 ^ 64 := by
    rintro key n (hr | ho | hb)
    · exact lt_of_natural hr
    · cases ho
    · cases hb
  obtain ⟨values, hr, rfl⟩ := Members.map_eq_ok.1 h
  obtain ⟨ht, he, hw, hs, hc, hv, -⟩ := gives_of_record (by decide) hr
  exact ⟨hn ht, hn he, hn hw, hn hs, hn hc, hn hv⟩

end Summary

/-! ### Reports -/

namespace Report

/-- A report is read with the metadata that its member is read as. -/
theorem readAs {r : Report} {metadata : Option Json} (hf : r.summary.Fits)
    (hm : Writes (.also (.optional "metadata" (Read.option (Read.free (maxDepth - 1)))) .none)
      (member? "metadata" id r.metadata) (metadata, ())) :
    r.toJson.ReadAs Report.ofTree { r with metadata := metadata } := by
  have hw : Writes Report.members
      ([("version", r.version.toJson), ("timestamp", .text r.timestamp),
        ("summary", r.summary.toJson),
        ("diagnostics", .sequence (r.diagnostics.map Diagnostic.toJson))]
        ++ member? "metadata" id r.metadata)
      (r.version, r.timestamp, r.summary, r.diagnostics, metadata, ()) :=
    .also r.version.readAs <| .also (.text r.timestamp) <| .also (Summary.readAs hf) <|
      .also (.list fun d _ => d.readAs) hm
  exact (hw.readAs (by decide) "Report").map

/-- Metadata that is absent, or a value that a reader can give, is read as it was written. -/
theorem writes_metadata {metadata : Option Json}
    (h : ∀ v ∈ metadata, v ≠ .null ∧ v.integral = true ∧ v.Regular ∧ v.depth ≤ maxDepth - 1) :
    Writes (.also (.optional "metadata" (Read.option (Read.free (maxDepth - 1)))) .none)
      (member? "metadata" id metadata) (metadata, ()) := by
  cases metadata with
  | none => exact .omitted rfl .done
  | some v =>
    obtain ⟨hv, hi, hr, hd⟩ := h v rfl
    have hread : v.ReadAs (Read.free (maxDepth - 1)) v :=
      ⟨hi, by rw [Read.free, free?_tree v hi hr hd]⟩
    have ht : v.tree ≠ .null := by cases v <;> first | exact absurd rfl hv | exact nofun
    exact .also (hread.present ht) .done

/-- Metadata that is nothing is read as absent. -/
theorem writes_metadata_null :
    Writes (.also (.optional "metadata" (Read.option (Read.free (maxDepth - 1)))) .none)
      (member? "metadata" id (some .null)) (none, ()) :=
  .also .absent .done

/-- Metadata that has been read is a value that a reader can give, and not nothing. -/
theorem metadata_of_read {metadata : Option Json} {t : Tree}
    (h : Read.option (Read.free (maxDepth - 1)) t = .ok metadata) :
    ∀ v ∈ metadata, v ≠ .null ∧ v.Regular ∧ v.depth ≤ maxDepth - 1 := by
  rintro v ⟨⟩
  rw [Read.option.eq_def] at h
  split at h
  · cases h
  · rename_i hne
    obtain ⟨w, hw, he⟩ := Members.map_eq_ok.1 h
    cases he
    rw [Read.free] at hw
    split at hw
    · rename_i hf
      cases hw
      refine ⟨?_, regular_of_free? t hf⟩
      rintro rfl
      exact hne (eq_null_of_free? hf)
    · cases hw

/-- What holds of every report that has been read. -/
theorem of_ofTree {r : Report} {t : Tree} (h : Report.ofTree t = .ok r) :
    r.summary.Fits ∧ ∀ v ∈ r.metadata, v ≠ .null ∧ v.Regular ∧ v.depth ≤ maxDepth - 1 := by
  obtain ⟨⟨_, _, _, _, metadata, _⟩, hr, rfl⟩ := Members.map_eq_ok.1 h
  obtain ⟨-, -, hs, -, hm, -⟩ := gives_of_record (by decide) hr
  refine ⟨?_, ?_⟩
  · rcases hs with hs | hs | hs
    · exact Summary.fits_of_ofTree hs
    · cases hs
    · cases hs
  · rcases hm with hm | hm | hm
    · exact metadata_of_read hm
    · cases hm
      exact nofun
    · cases hm

/-- A report whose counts fit into 64 bits is read as it was written, if its metadata is absent or a
    value other than nothing that has no decimal numbers and is nested at most 126 levels deep. If
    its metadata is nothing, it is read without metadata. So every report that has been read, and
    has no decimal numbers, is read again as it is. -/
theorem ofText_text :
    (∀ r : Report, r.summary.Fits →
      (∀ v ∈ r.metadata, v ≠ .null ∧ v.integral = true ∧ v.Regular ∧ v.depth ≤ 126) →
        Report.ofText r.text = .ok r) ∧
    (∀ r : Report, r.summary.Fits → r.metadata = some .null →
      Report.ofText r.text = .ok { r with metadata := none }) ∧
    ∀ (s : String) (r : Report), Report.ofText s = .ok r →
      (∀ v ∈ r.metadata, v.integral = true) → Report.ofText r.text = .ok r := by
  have hread : ∀ r : Report, r.summary.Fits →
      (∀ v ∈ r.metadata, v ≠ .null ∧ v.integral = true ∧ v.Regular ∧ v.depth ≤ 126) →
        Report.ofText r.text = .ok r := fun r hf hm =>
    (readAs hf (writes_metadata hm)).read_indented
  refine ⟨hread, ?_, ?_⟩
  · intro r hf hm
    exact (readAs hf (by rw [hm]; exact writes_metadata_null)).read_indented
  · intro s r hs hi
    rw [Report.ofText, Source.read] at hs
    split at hs
    · cases hs
    · rename_i hr
      split at hs
      · cases hs
        obtain ⟨hf, hm⟩ := of_ofTree hr
        exact hread r hf fun v hv => ⟨(hm v hv).1, hi v hv, (hm v hv).2⟩
      · cases hs

/-- A report with nested metadata, and the same report with metadata that is nothing. -/
theorem ofText_text_nested :
    let build : Json := .sequence [.integer (-1), .integer (2 ^ 64 - 1), .null]
    let r : Report :=
      { timestamp := "2024-01-01T00:00:00Z"
        metadata := some (.table [("build", build), ("host", .text "a\n\"b\"")]) }
    ofText r.text = .ok r ∧
      ofText (r.withMetadata .null).text = .ok { r with metadata := none } := by
  intro build r
  have hf : r.summary.Fits := by constructor <;> decide
  have hm : ∀ v ∈ r.metadata, v ≠ .null ∧ v.integral = true ∧ v.Regular ∧ v.depth ≤ 126 := by
    rintro v ⟨⟩
    have hb : build.Regular :=
      ⟨⟨by decide, by decide⟩, ⟨by decide, by decide⟩, trivial, trivial⟩
    exact ⟨nofun, rfl, ⟨by decide, hb, trivial, trivial⟩, by decide⟩
  exact ⟨ofText_text.1 r hf hm, ofText_text.2.1 (r.withMetadata .null) hf rfl⟩

end Report

end Immutability
