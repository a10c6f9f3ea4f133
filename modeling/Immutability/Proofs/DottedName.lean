import Immutability.DottedName
import Mathlib.Data.List.Basic

/-! Dotted names, part by part.

    What is compared are the characters of two names and a dot after the shorter one. This says that
    the parts of the one name begin with those of the other, all of them whole, since a name is what
    its parts are with dots between them. -/

namespace Immutability

/-- The parts of a name between its dots. -/
def segments (name : String) : List String := (name.toList.splitOn '.').map String.ofList

theorem segments_ne_nil (name : String) : segments name ≠ [] := by
  simp [segments, List.splitOn_ne_nil]

/-- The parts with dots between them are the name. -/
theorem intercalate_segments (name : String) : ".".intercalate (segments name) = name := by
  rw [← String.toList_inj, String.toList_intercalate, segments, List.map_map]
  have hid : String.toList ∘ String.ofList = id := by
    funext cs
    exact String.toList_ofList
  rw [hid, List.map_id]
  exact List.intercalate_splitOn '.'

/-- A dot between two names adds their parts. -/
theorem segments_append_dot_append (a b : String) :
    segments (a ++ "." ++ b) = segments a ++ segments b := by
  simp [segments, List.splitOn_append_cons_self]

theorem segments_of_notMem {name : String} (h : '.' ∉ name.toList) : segments name = [name] := by
  rw [segments, List.splitOn_eq_singleton h]
  simp

/-- An element lies within a path exactly if its parts begin with those of the path. -/
theorem isWithin_iff {path element : String} :
    isWithin path element = true ↔ segments path <+: segments element := by
  rw [isWithin, Bool.or_eq_true, decide_eq_true_iff, List.isPrefixOf_iff_prefix]
  constructor
  · rintro (rfl | ⟨rest, he⟩)
    · exact List.prefix_refl _
    · refine ⟨segments (.ofList rest), ?_⟩
      rw [← segments_append_dot_append]
      congr 1
      rw [← String.toList_inj, ← he]
      simp
  · rintro ⟨rest, he⟩
    have hi : ".".intercalate (segments path ++ rest) = element := by
      rw [he, intercalate_segments]
    by_cases hr : rest = []
    · left
      rw [← hi, hr, List.append_nil, intercalate_segments]
    · right
      rw [String.intercalate_append_of_ne_nil (segments_ne_nil path) hr,
        intercalate_segments] at hi
      exact ⟨(".".intercalate rest).toList, by simp [← hi]⟩

end Immutability
