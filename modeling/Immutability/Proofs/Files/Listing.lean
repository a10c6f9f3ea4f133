import Immutability.Proofs.Files.Writing
import Immutability.Proofs.Keyed

/-! Which files a tree lists, and how the paths to them compare.

    In a tree whose folders give every entry a name of its own, the files that are listed are those
    that can be looked up, each once. Going on from a path adds the names to its components, so the
    paths of files below one folder compare as the names do. -/

namespace Immutability

namespace FileTree

/-- In every folder the entries have names, and no two have the same. -/
inductive Proper : FileTree → Prop
  | file (text : Option String) : Proper (.file text)
  | folder {entries : List (String × FileTree)} (hd : (entries.map (·.1)).Nodup)
    (hn : ∀ e ∈ entries, IsName e.1) (he : ∀ e ∈ entries, Proper e.2) : Proper (.folder entries)

variable {tree : FileTree} {path : String} {names below : List String}

/-! ### Listing -/

theorem filesIn_eq_flatMap (entries : List (String × FileTree)) :
    filesIn entries = entries.flatMap fun e => e.2.files.map (e.1 :: ·) := by
  induction entries with
  | nil => rfl
  | cons e entries ih => rw [filesIn, ih, List.flatMap_cons]

theorem Proper.at? (h : tree.Proper) {node : FileTree} (hn : tree.at? names = some node) :
    node.Proper := by
  induction names generalizing tree with
  | nil =>
    rw [at?_nil] at hn
    cases hn
    exact h
  | cons name names ih =>
    cases h with
    | file text => cases hn
    | folder hd hnames he =>
      rw [FileTree.at?, Option.bind_eq_some_iff] at hn
      obtain ⟨entry, hl, hn⟩ := hn
      exact ih (he _ ((lookup_eq_some_iff hd).1 hl)) hn

/-- The files that are listed are those that can be looked up. -/
theorem Proper.mem_files_iff (h : tree.Proper) :
    below ∈ tree.files ↔ ∃ text, tree.look below = some (.file text) := by
  induction h generalizing below with
  | file text =>
    cases below with
    | nil => simp [files, look, face]
    | cons name below => simp [files, look, FileTree.at?]
  | @folder entries hd hn he ih =>
    rw [files, filesIn_eq_flatMap, List.mem_flatMap]
    constructor
    · rintro ⟨⟨name, node⟩, hm, hb⟩
      obtain ⟨rest, hr, rfl⟩ := List.mem_map.1 hb
      rw [look_folder_cons, (lookup_eq_some_iff hd).2 hm]
      exact (ih _ hm).1 hr
    · rintro ⟨text, hl⟩
      cases below with
      | nil => cases hl
      | cons name rest =>
        rw [look_folder_cons] at hl
        cases hnode : entries.lookup name with
        | none => simp [hnode] at hl
        | some node =>
          rw [hnode] at hl
          have hm := (lookup_eq_some_iff hd).1 hnode
          exact ⟨_, hm, List.mem_map.2 ⟨rest, (ih _ hm).2 ⟨text, hl⟩, rfl⟩⟩

/-- No file is listed twice. -/
theorem Proper.files_nodup (h : tree.Proper) : tree.files.Nodup := by
  induction h with
  | file text => exact List.nodup_singleton []
  | @folder entries hd hn he ih =>
    rw [files, filesIn_eq_flatMap, List.nodup_flatMap]
    constructor
    · intro e hm
      exact (ih e hm).map fun a b hab => (List.cons.inj hab).2
    · refine (List.pairwise_map.1 hd).imp ?_
      intro e e' hne names hm hm'
      obtain ⟨rest, -, rfl⟩ := List.mem_map.1 hm
      obtain ⟨rest', -, he'⟩ := List.mem_map.1 hm'
      exact hne (List.cons.inj he').1.symm

/-- Files are listed by names. -/
theorem Proper.isName_of_mem_files (h : tree.Proper) (hb : below ∈ tree.files) :
    ∀ name ∈ below, IsName name := by
  induction h generalizing below with
  | file text =>
    rw [files, List.mem_singleton] at hb
    simp [hb]
  | @folder entries hd hn he ih =>
    rw [files, filesIn_eq_flatMap, List.mem_flatMap] at hb
    obtain ⟨e, hm, hb⟩ := hb
    obtain ⟨rest, hr, rfl⟩ := List.mem_map.1 hb
    exact List.forall_mem_cons.2 ⟨hn e hm, ih e hm hr⟩

/-! ### Components -/

/-- The steps of a path less those that stay where they are. A dot at the start of the path remains. -/
def componentsOf : List String → List String
  | [] => []
  | step :: steps => (if step = "" then [] else [step]) ++ steps.filter fun s => s ≠ "" ∧ s ≠ "."

/-- The components of a path. -/
def components (path : String) : List String := componentsOf (steps path)

theorem componentsOf_append {before after : List String} (h : before ≠ []) :
    componentsOf (before ++ after) =
      componentsOf before ++ after.filter fun s => s ≠ "" ∧ s ≠ "." := by
  obtain ⟨step, before, rfl⟩ := List.exists_cons_of_ne_nil h
  rw [List.cons_append, componentsOf, componentsOf, List.filter_append, List.append_assoc]

/-- Only the empty path has an empty step and no other. -/
theorem steps_ne_singleton (hp : path ≠ "") : steps path ≠ [""] := by
  rw [steps_eq]
  intro hs
  obtain ⟨part, hpart, he⟩ := List.map_eq_singleton_iff.1 hs
  have hi : ['/'].intercalate (path.toList.splitOn '/') = path.toList := List.intercalate_splitOn '/'
  rw [hpart, String.ofList_eq_empty_iff.1 he] at hi
  exact hp (String.toList_eq_nil_iff.1 hi.symm)

/-- Going on from a path adds the names to its components. -/
theorem components_joinSteps (hp : path ≠ "") (hb : ∀ name ∈ below, IsName name) :
    components (joinSteps path below) = components path ++ below := by
  induction below generalizing path with
  | nil => simp [joinSteps]
  | cons name below ih =>
    obtain ⟨hname, hb⟩ := List.forall_mem_cons.1 hb
    have hne : joinSteps path [name] ≠ "" := by
      rw [joinSteps, List.foldl_cons, List.foldl_nil, ne_eq, ← String.toList_eq_nil_iff,
        String.toList_append, List.append_eq_nil_iff, String.toList_eq_nil_iff]
      exact fun h => hname.ne_empty (String.toList_eq_nil_iff.1 h.2)
    have hone : components (joinSteps path [name]) = components path ++ [name] := by
      have hkept : [name].filter (fun s => s ≠ "" ∧ s ≠ ".") = [name] := by
        simp [hname.ne_empty, hname.ne_here]
      rw [components, components]
      rcases steps_joinSteps_singleton path hname.notMem with hj | ⟨before, hs, hj⟩
      · rw [hj, componentsOf_append (by simp [steps_eq, List.splitOn_ne_nil]), hkept]
      · have hbefore : before ≠ [] := by
          rintro rfl
          exact steps_ne_singleton hp hs
        rw [hj, hs, componentsOf_append hbefore, componentsOf_append hbefore, hkept]
        simp
    have hj : joinSteps path (name :: below) = joinSteps (joinSteps path [name]) below := rfl
    rw [hj, ih hne hb, hone, List.append_assoc, List.singleton_append]

end FileTree

end Immutability
