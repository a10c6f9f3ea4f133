import Immutability.Discovery
import Mathlib.Data.String.Basic

/-! The order of documents.

    Steps are ordered by the first of them that differs, and this order is total. So there is one order
    for the documents among files, in whatever order the files are listed. -/

namespace Immutability

theorem stepsLe_total (a b : List String) : (stepsLe a b || stepsLe b a) = true := by
  induction a generalizing b with
  | nil => rfl
  | cons a as ih =>
    cases b with
    | nil => rfl
    | cons b bs =>
      rcases lt_trichotomy a b with h | rfl | h
      · simp [stepsLe, h, h.ne]
      · simpa [stepsLe] using ih bs
      · simp [stepsLe, h, h.ne]

theorem stepsLe_trans (a b c : List String) (h : stepsLe a b = true) (h' : stepsLe b c = true) :
    stepsLe a c = true := by
  induction a generalizing b c with
  | nil => rfl
  | cons a as ih =>
    rcases b with _ | ⟨b, bs⟩
    · cases h
    rcases c with _ | ⟨c, cs⟩
    · cases h'
    rw [stepsLe] at h h' ⊢
    by_cases hab : a = b
    · subst hab
      by_cases hac : a = c
      · simp only [hac, if_true] at h h' ⊢
        exact ih bs cs h h'
      · simpa [hac] using h'
    · have hlt : a < b := by simpa [hab] using h
      by_cases hbc : b = c
      · subst hbc
        simpa [hab] using hlt
      · have hlt' : b < c := by simpa [hbc] using h'
        simpa [(hlt.trans hlt').ne] using hlt.trans hlt'

theorem stepsLe_antisymm {a b : List String} (h : stepsLe a b = true) (h' : stepsLe b a = true) :
    a = b := by
  induction a generalizing b with
  | nil =>
    cases b with
    | nil => rfl
    | cons b bs => cases h'
  | cons a as ih =>
    cases b with
    | nil => cases h
    | cons b bs =>
      rw [stepsLe] at h h'
      by_cases hab : a = b
      · subst hab
        rw [if_pos rfl] at h h'
        rw [ih h h']
      · have hlt : a < b := by simpa [hab] using h
        have hlt' : b < a := by simpa [Ne.symm hab] using h'
        exact absurd hlt' hlt.asymm

/-- Steps have one order only. -/
theorem eq_of_perm_of_ordered {l l' : List (List String)} (hp : l.Perm l')
    (h : l.Pairwise fun a b => stepsLe a b = true)
    (h' : l'.Pairwise fun a b => stepsLe a b = true) : l = l' :=
  hp.eq_of_pairwise (fun _ _ _ _ => stepsLe_antisymm) h h'

theorem ordered_mergeSort (l : List (List String)) :
    (l.mergeSort stepsLe).Pairwise fun a b => stepsLe a b = true :=
  List.pairwise_mergeSort stepsLe_trans stepsLe_total l

/-- The order of steps does not depend on where they come from. -/
theorem mergeSort_eq_of_perm {l l' : List (List String)} (h : l.Perm l') :
    l.mergeSort stepsLe = l'.mergeSort stepsLe :=
  eq_of_perm_of_ordered (((List.mergeSort_perm l _).trans h).trans (List.mergeSort_perm l' _).symm)
    (ordered_mergeSort l) (ordered_mergeSort l')

/-- One more list of steps comes somewhere among the others, which stay as they are. -/
theorem exists_mergeSort_cons {l l' : List (List String)} {x : List String} (h : l'.Perm (x :: l)) :
    ∃ before after, l.mergeSort stepsLe = before ++ after ∧
      l'.mergeSort stepsLe = before ++ x :: after := by
  have hx : x ∈ l'.mergeSort stepsLe := (List.mem_mergeSort).2 (h.mem_iff.2 List.mem_cons_self)
  obtain ⟨before, after, hs⟩ := List.append_of_mem hx
  have hp : (before ++ after).Perm l := by
    have hp := (List.perm_middle.symm.trans (hs ▸ List.mergeSort_perm l' stepsLe)).trans h
    exact hp.cons_inv
  have ho : (before ++ after).Pairwise fun a b => stepsLe a b = true := by
    refine (ordered_mergeSort l').sublist ?_
    rw [hs]
    exact List.Sublist.append_left (List.sublist_cons_self x after) before
  refine ⟨before, after, ?_, hs⟩
  exact eq_of_perm_of_ordered ((List.mergeSort_perm l _).trans hp.symm) (ordered_mergeSort l) ho

/-- The documents among files do not depend on the order in which the files are listed. -/
theorem documentsAmong_eq_of_perm {files files' : List (List String)} (h : files.Perm files')
    (root : String) : documentsAmong root files = documentsAmong root files' := by
  rw [documentsAmong, documentsAmong, mergeSort_eq_of_perm (h.filter _)]

end Immutability
