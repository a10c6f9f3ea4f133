import Immutability.Proofs.Command.Check

/-! What a new file changes in the documents that are found in a tree.

    A file that is new in a tree becomes one more document where its steps put it, or none; the others
    stay in their order. -/

namespace Immutability

/-! ### One more document -/

/-- One more file is one more document in its place, or none. -/
theorem documentsAmong_cons {files files' : List (List String)} {below : List String}
    (h : files'.Perm (below :: files)) (root : String) :
    documentsAmong root files' = documentsAmong root files ∨
      ∃ before after, documentsAmong root files = before ++ after ∧
        documentsAmong root files' = before ++ joinSteps root below :: after := by
  have hp := h.filter fun steps => isDocumentName (steps.getLastD (lastStep root))
  rw [documentsAmong, documentsAmong]
  by_cases hd : isDocumentName (below.getLastD (lastStep root)) = true
  · rw [List.filter_cons_of_pos (by exact hd)] at hp
    obtain ⟨before, after, hs, hs'⟩ := exists_mergeSort_cons hp
    right
    refine ⟨before.map (joinSteps root), after.map (joinSteps root), ?_, ?_⟩
    · rw [hs, List.map_append]
    · rw [hs', List.map_append, List.map_cons]
  · rw [List.filter_cons_of_neg (by exact hd)] at hp
    rw [mergeSort_eq_of_perm hp]
    exact Or.inl rfl

/-! ### Lists with more in them -/

/-- A list has become another one by the insertion of elements with a property. -/
inductive Padded {α : Type} (p : α → Prop) : List α → List α → Prop
  | nil : Padded p [] []
  | keep {a : α} {as bs : List α} (h : Padded p as bs) : Padded p (a :: as) (a :: bs)
  | pad {b : α} {as bs : List α} (hb : p b) (h : Padded p as bs) : Padded p as (b :: bs)

namespace Padded

variable {α β : Type} {p : α → Prop} {as bs as' bs' : List α}

theorem refl : ∀ as : List α, Padded p as as
  | [] => .nil
  | _ :: as => .keep (refl as)

theorem append (h : Padded p as bs) (h' : Padded p as' bs') : Padded p (as ++ as') (bs ++ bs') := by
  induction h with
  | nil => exact h'
  | keep h ih => exact .keep ih
  | pad hb h ih => exact .pad hb ih

/-- One element more. -/
theorem one {a : α} (ha : p a) (before after : List α) :
    Padded p (before ++ after) (before ++ a :: after) :=
  (refl before).append (.pad ha (refl after))

theorem map {q : β → Prop} {f : α → β} (hf : ∀ a, p a → q (f a)) (h : Padded p as bs) :
    Padded q (as.map f) (bs.map f) := by
  induction h with
  | nil => exact .nil
  | keep h ih => exact .keep ih
  | pad hb h ih => exact .pad (hf _ hb) ih

theorem flatMap {q : β → Prop} {f g : α → List β} (h : ∀ a ∈ as, Padded q (f a) (g a)) :
    Padded q (as.flatMap f) (as.flatMap g) := by
  induction as with
  | nil => exact .nil
  | cons a as ih =>
    obtain ⟨ha, has⟩ := List.forall_mem_cons.1 h
    exact ha.append (ih has)

/-- What gives nothing adds nothing. -/
theorem flatMap_eq {f : α → List β} (h : Padded p as bs) (hf : ∀ a, p a → f a = []) :
    bs.flatMap f = as.flatMap f := by
  induction h with
  | nil => rfl
  | keep h ih => rw [List.flatMap_cons, List.flatMap_cons, ih]
  | pad hb h ih => rw [List.flatMap_cons, hf _ hb, List.nil_append, ih]

/-- What is found first is what was found first, or something that has been inserted. -/
theorem findSome?_or {f : α → Option β} {o : Option β} (h : Padded p as bs)
    (hf : ∀ a, p a → f a = none ∨ f a = o) :
    bs.findSome? f = as.findSome? f ∨ bs.findSome? f = o := by
  induction h with
  | nil => exact Or.inl rfl
  | @keep a as bs h ih =>
    rw [List.findSome?_cons, List.findSome?_cons]
    cases f a with
    | some b => exact Or.inl rfl
    | none => exact ih
  | @pad b as bs hb h ih =>
    rw [List.findSome?_cons]
    cases hfb : f b with
    | none => exact ih
    | some x =>
      rcases hf b hb with hn | ho
      · cases hn.symm.trans hfb
      · exact Or.inr (hfb.symm.trans ho)

theorem mem {b : α} (h : Padded p as bs) (hb : b ∈ bs) : b ∈ as ∨ p b := by
  induction h with
  | nil => exact Or.inl hb
  | keep h ih =>
    rcases List.mem_cons.1 hb with rfl | hb
    · exact Or.inl List.mem_cons_self
    · exact (ih hb).imp_left (List.mem_cons_of_mem _)
  | pad hp h ih =>
    rcases List.mem_cons.1 hb with rfl | hb
    · exact Or.inr hp
    · exact ih hb

end Padded

/-! ### A new file -/

namespace FileTree

variable {tree tree' : FileTree} {text : String} {names : List String}

/-- A name that no entry has gets one at the end. -/
theorem filesIn_setEntry_of_none {name : String} {entries : List (String × FileTree)}
    (h : entries.lookup name = none) (node : FileTree) :
    filesIn (setEntry name node entries) = filesIn entries ++ node.files.map (name :: ·) := by
  induction entries with
  | nil => simp [setEntry, filesIn]
  | cons entry entries ih =>
    obtain ⟨n, t⟩ := entry
    by_cases hn : n = name
    · simp [hn] at h
    · rw [List.lookup_cons, beq_false_of_ne (Ne.symm hn)] at h
      rw [setEntry, if_neg hn, filesIn, filesIn, ih h, List.append_assoc]

/-- One more file below an entry is one more below the folder of the entry. -/
theorem filesIn_setEntry_of_some {name : String} {entries : List (String × FileTree)}
    {node node' : FileTree} (h : entries.lookup name = some node)
    (hp : node'.files.Perm (names :: node.files)) :
    (filesIn (setEntry name node' entries)).Perm ((name :: names) :: filesIn entries) := by
  induction entries with
  | nil => cases h
  | cons entry entries ih =>
    obtain ⟨n, t⟩ := entry
    by_cases hn : n = name
    · rw [List.lookup_cons, hn, BEq.rfl] at h
      cases h
      rw [setEntry, if_pos hn, filesIn, filesIn, hn]
      exact (hp.map (name :: ·)).append_right (filesIn entries)
    · rw [List.lookup_cons, beq_false_of_ne (Ne.symm hn)] at h
      rw [setEntry, if_neg hn, filesIn, filesIn]
      exact ((ih h).append_left _).trans List.perm_middle

/-- A file that is new is one more among the files. -/
theorem Saved.files_perm (h : Saved text names tree tree') (hn : tree.look names = none) :
    tree'.files.Perm (names :: tree.files) := by
  induction h with
  | @entry name entries h =>
    have he : entries.lookup name = none := by
      cases he : entries.lookup name with
      | none => rfl
      | some node => simp [look_folder_cons, he] at hn
    rw [files, files, filesIn_setEntry_of_none he]
    exact List.perm_append_singleton _ _
  | @inner name names entries node node' he h ih =>
    rw [look_folder_cons, he] at hn
    exact filesIn_setEntry_of_some he (ih hn)

/-- What has names has what it had, unless the names lead to the file that has been saved; then the
    file has been saved below. -/
theorem Saved.at? {here : List String} {node : FileTree} (h : Saved text names tree tree')
    (hn : tree.at? here = some node) (hf : node.face = .folder) :
    tree'.at? here = some node ∨ ∃ below node', names = here ++ below ∧
      tree'.at? here = some node' ∧ Saved text below node node' := by
  induction h generalizing here with
  | @entry name entries h =>
    rcases here with _ | ⟨first, here⟩
    · cases hn
      exact Or.inr ⟨_, _, rfl, rfl, .entry h⟩
    · left
      rw [FileTree.at?] at hn ⊢
      by_cases hfirst : first = name
      · -- no folder has the name
        exfalso
        subst hfirst
        rcases he : entries.lookup first with _ | t | es
        · simp [he] at hn
        · cases here <;> simp [he, FileTree.at?] at hn
          simp [← hn, face] at hf
        · simp [he, face] at h
      · rwa [lookup_setEntry_of_ne hfirst]
  | @inner name names entries node₁ node₁' he h ih =>
    rcases here with _ | ⟨first, here⟩
    · cases hn
      exact Or.inr ⟨_, _, rfl, rfl, .inner he h⟩
    · rw [FileTree.at?] at hn ⊢
      by_cases hfirst : first = name
      · subst hfirst
        rw [he] at hn
        rw [lookup_setEntry_self]
        rcases ih hn with hsame | ⟨below, node', rfl, hbelow⟩
        · exact Or.inl hsame
        · exact Or.inr ⟨below, node', rfl, hbelow⟩
      · left
        rwa [lookup_setEntry_of_ne hfirst]

/-! ### Documents around a new file -/

variable {path : String}

/-- Paths lead to folders where they did. -/
theorem Saved.isFolder_eq (h : Saved text names tree tree') (path : String) :
    tree'.isFolder path = tree.isFolder path := by
  rw [Bool.eq_iff_iff, isFolder_iff, isFolder_iff]
  constructor
  · rintro ⟨here, hl, hf⟩
    rw [h.look_eq_folder_iff] at hf
    refine ⟨here, (h.locates_or hl).resolve_left ?_, hf⟩
    rintro rfl
    exact h.look_ne hf
  · rintro ⟨here, hl, hf⟩
    exact ⟨here, h.locates hl, (h.look_eq_folder_iff here).2 hf⟩

/-- What could be read is as it was, if the file is new. -/
theorem Saved.read (h : Saved text names tree tree') (hn : tree.look names = none) {content : String}
    (hr : tree.read path = .ok content) : tree'.read path = .ok content := by
  obtain ⟨here, hl, hf⟩ := read_eq_ok_iff.1 hr
  have hne : here ≠ names := by
    rintro rfl
    rw [hn] at hf
    cases hf
  exact read_eq_ok_iff.2 ⟨here, h.locates hl, (h.look_of_ne hne).trans hf⟩

/-- The documents at a path are those that were there, and perhaps the new file. -/
theorem Saved.documentsAt (h : Saved text names tree tree') (hn : tree.look names = none)
    (hnames : ∀ name ∈ names, IsName name) (path : String) :
    Padded (fun d => tree'.read d = .ok text) (tree.documentsAt path) (tree'.documentsAt path) := by
  rw [FileTree.documentsAt, FileTree.documentsAt, h.isFolder_eq]
  split
  · rename_i hfolder
    obtain ⟨here, hl, hf⟩ := isFolder_iff.1 hfolder
    obtain ⟨entries, he⟩ := FileTree.look_eq_folder_iff.1 hf
    rw [hl.filesBelow he]
    rcases h.at? he rfl with hsame | ⟨below, node', rfl, he', hbelow⟩
    · rw [(h.locates hl).filesBelow hsame]
      exact .refl _
    · rw [(h.locates hl).filesBelow he']
      have hfresh : (FileTree.folder entries).look below = none := by
        rwa [look, at?_append, he] at hn
      rcases documentsAmong_cons (hbelow.files_perm hfresh) path with hd | ⟨before, after, hd, hd'⟩
      · rw [hd]
        exact .refl _
      · rw [hd, hd']
        have hself := h.look_self
        have hl' : tree'.Locates (joinSteps path below) (here ++ below) :=
          (h.locates hl).joinSteps (fun name hb => hnames name (List.mem_append_right here hb))
            (by simp [hself])
        refine .one ?_ before after
        exact read_eq_ok_iff.2 ⟨_, hl', hself⟩
  · exact .refl _

/-- What is found is what was found, and perhaps the new file, if all of it could be read. -/
theorem Saved.findings (h : Saved text names tree tree') (hn : tree.look names = none)
    (hnames : ∀ name ∈ names, IsName name) {paths : List String}
    (hr : ∀ f ∈ tree.findings paths, ∃ content, f.content = .ok content) :
    Padded (fun f => f.content = .ok text) (tree.findings paths) (tree'.findings paths) := by
  have hd : Padded (fun d => tree'.read d = .ok text) (paths.flatMap tree.documentsAt)
      (paths.flatMap tree'.documentsAt) :=
    .flatMap fun path _ => h.documentsAt hn hnames path
  have hsame : tree.findings paths =
      (paths.flatMap tree.documentsAt).map fun path => ⟨path, tree'.read path⟩ := by
    rw [FileTree.findings]
    refine List.map_congr_left fun path hp => ?_
    obtain ⟨content, hc⟩ := hr ⟨path, tree.read path⟩ (List.mem_map_of_mem hp)
    rw [h.read hn hc, show tree.read path = .ok content from hc]
  rw [hsame]
  exact hd.map fun _ hread => hread

end FileTree

end Immutability
