import Immutability.Discovery
import Mathlib.Data.String.Basic

/-! The steps of a path.

    A path is split at its slashes. So no step holds a slash, and what goes on from a path by a name
    without slashes has the steps of the path and the name as one more. A slash at the end of a path
    adds a step that stays where it is. -/

namespace Immutability

open String

/-- Splitting goes on behind a part that has been split off, and a part that has been begun. -/
theorem splitOnAux_of_valid (l m r : List Char) (acc : List String) :
    splitOnAux (ofList (l ++ m ++ r)) "/" ⟨utf8Len l⟩ ⟨utf8Len l + utf8Len m⟩ 0 acc =
      acc.reverse ++ (r.splitOnPPrepend (· == '/') m.reverse).map ofList := by
  induction r generalizing l m acc with
  | nil =>
    have hend := (atEnd_of_valid (l ++ m) []).2 rfl
    rw [utf8Len_append] at hend
    unfold splitOnAux
    rw [if_pos hend, extract_of_valid]
    simp
  | cons c r ih =>
    have hend := mt (atEnd_of_valid (l ++ m) (c :: r)).1 (List.cons_ne_nil c r)
    have hget := get_of_valid (l ++ m) (c :: r)
    have hnext := next_of_valid (l ++ m) c r
    have hsep : (0 : Pos.Raw).get "/" = '/' := rfl
    rw [utf8Len_append] at hend hget hnext
    unfold splitOnAux
    rw [if_neg hend, hget, hnext, hsep, List.headD_cons]
    by_cases hc : c = '/'
    · -- the part that has been begun ends here
      subst hc
      have hs : (⟨utf8Len l + utf8Len m + Char.utf8Size '/'⟩ : Pos.Raw).unoffsetBy
        ((0 : Pos.Raw).next "/") = ⟨utf8Len l + utf8Len m⟩ := rfl
      have he : ((0 : Pos.Raw).next "/").atEnd "/" = true := rfl
      simp only [BEq.rfl, if_true, he, hs]
      rw [extract_of_valid, List.splitOnPPrepend_cons_pos rfl]
      refine Eq.trans ?_ ((ih (l ++ m ++ ['/']) [] (ofList m :: acc)).trans ?_)
      · simp [Nat.add_assoc]
      · simp
    · have hb : (c == '/') = false := beq_false_of_ne hc
      have hs : (⟨utf8Len l + utf8Len m⟩ : Pos.Raw).unoffsetBy 0 = ⟨utf8Len l + utf8Len m⟩ := rfl
      rw [hb, hs, hnext, List.splitOnPPrepend_cons_neg (by exact hb)]
      refine Eq.trans ?_ ((ih l (m ++ [c]) acc).trans ?_)
      · simp [Nat.add_assoc]
      · simp

theorem notMem_of_mem_splitOn {cs part : List Char} (h : part ∈ cs.splitOn '/') : '/' ∉ part := by
  induction cs generalizing part with
  | nil => simp_all
  | cons c cs ih =>
    rw [List.splitOn_cons_eq_if_modifyHead] at h
    split at h
    · rcases List.mem_cons.1 h with rfl | h
      · exact List.not_mem_nil
      · exact ih h
    · obtain ⟨head, parts, hp⟩ := List.exists_cons_of_ne_nil (List.splitOn_ne_nil '/' cs)
      rw [hp] at ih h
      rcases List.mem_cons.1 h with rfl | h
      · have hhead := ih List.mem_cons_self
        rintro (_ | ⟨_, hm⟩)
        · contradiction
        · exact hhead hm
      · exact ih (List.mem_cons_of_mem _ h)

/-- The last part of a text is what its end is a part of, if the end holds no slash. -/
theorem exists_splitOn_append (cs : List Char) {text : List Char} (h : '/' ∉ text) :
    ∃ before last, (cs ++ text).splitOn '/' = before ++ [last ++ text] := by
  induction cs with
  | nil => exact ⟨[], [], List.splitOn_eq_singleton h⟩
  | cons c cs ih =>
    obtain ⟨before, last, ih⟩ := ih
    rw [List.cons_append, List.splitOn_cons_eq_if_modifyHead, ih]
    split
    · exact ⟨[] :: before, last, rfl⟩
    · cases before with
      | nil => exact ⟨[], c :: last, rfl⟩
      | cons part before => exact ⟨(c :: part) :: before, last, rfl⟩

theorem endsWith_iff (s t : String) : s.endsWith t = true ↔ t.toList <:+ s.toList := by
  have h : s.toSlice.endsWith t ↔ t.toList <:+ s.toSlice.copy.toList := Slice.endsWith_string_iff
  rwa [copy_toSlice] at h

namespace FileTree

/-- The steps of a path are what stands between its slashes. -/
theorem steps_eq (path : String) : steps path = (path.toList.splitOn '/').map ofList := by
  have h := splitOnAux_of_valid [] [] path.toList []
  simpa [steps, splitOn, List.splitOn_eq_splitOnP] using h

/-- No step holds a slash. -/
theorem notMem_of_mem_steps {path step : String} (h : step ∈ steps path) : '/' ∉ step.toList := by
  rw [steps_eq] at h
  obtain ⟨part, hp, rfl⟩ := List.mem_map.1 h
  rw [toList_ofList]
  exact notMem_of_mem_splitOn hp

theorem steps_of_notMem {name : String} (h : '/' ∉ name.toList) : steps name = [name] := by
  rw [steps_eq, List.splitOn_eq_singleton h]
  simp

theorem steps_append_slash_append (path rest : String) :
    steps (path ++ "/" ++ rest) = steps path ++ steps rest := by
  simp [steps_eq, List.splitOn_append_cons_self]

/-- Going on from a path by a name adds the name to its steps. A slash that the path ends in has
    added an empty step already, in whose place the name comes. -/
theorem steps_joinSteps_singleton (path : String) {name : String} (h : '/' ∉ name.toList) :
    steps (joinSteps path [name]) = steps path ++ [name] ∨
      ∃ before, steps path = before ++ [""] ∧ steps (joinSteps path [name]) = before ++ [name] := by
  rw [joinSteps, List.foldl_cons, List.foldl_nil]
  by_cases hp : path.endsWith "/" = true
  · obtain ⟨before, hb⟩ := (endsWith_iff path "/").1 hp
    have hpath : path = ofList before ++ "/" := by
      rw [← toList_inj, toList_append, toList_ofList, hb]
    right
    refine ⟨steps (ofList before), ?_, ?_⟩
    · have he : steps "" = [""] := steps_of_notMem List.not_mem_nil
      have hs := steps_append_slash_append (ofList before) ""
      rwa [append_empty, ← hpath, he] at hs
    · rw [if_pos hp, hpath, steps_append_slash_append, steps_of_notMem h]
  · left
    rw [if_neg hp, steps_append_slash_append, steps_of_notMem h]

/-- A path that ends in a text without slashes has a last step that ends in it. -/
theorem endsWith_of_steps {path text : String} {before : List String} {last : String}
    (hs : steps path = before ++ [last]) (h : path.endsWith text = true) (ht : '/' ∉ text.toList) :
    last.endsWith text = true := by
  obtain ⟨cs, hcs⟩ := (endsWith_iff path text).1 h
  obtain ⟨parts, part, hp⟩ := exists_splitOn_append cs ht
  rw [steps_eq, ← hcs, hp, List.map_append, List.map_singleton] at hs
  obtain ⟨-, hlast⟩ := List.append_inj' hs rfl
  rw [endsWith_iff, ← List.singleton_inj.1 hlast, toList_ofList]
  exact List.suffix_append part text.toList

end FileTree

end Immutability
