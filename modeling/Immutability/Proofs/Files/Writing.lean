import Immutability.Proofs.Files.Names

/-! What writing a file changes in a tree.

    A path stands for the file that a write to it makes (`Denotes`), whatever the text and whether
    the file is there already. A write gives that file the text and changes nothing else (`Saved`), so
    what other names have, where paths lead and for which files they stand is as before. -/

namespace Immutability

namespace FileTree

variable {tree tree' : FileTree} {path text : String} {names : List String}

/-! ### Entries -/

theorem lookup_setEntry_self (name : String) (node : FileTree)
    (entries : List (String × FileTree)) : (setEntry name node entries).lookup name = some node := by
  induction entries with
  | nil => simp [setEntry]
  | cons entry entries ih =>
    obtain ⟨n, t⟩ := entry
    by_cases h : n = name
    · simp [setEntry, h]
    · simp [setEntry, h, List.lookup_cons, ih, beq_false_of_ne (Ne.symm h)]

theorem lookup_setEntry_of_ne {name other : String} (h : other ≠ name) (node : FileTree)
    (entries : List (String × FileTree)) :
    (setEntry name node entries).lookup other = entries.lookup other := by
  induction entries with
  | nil => simp [setEntry, List.lookup_cons, beq_false_of_ne h]
  | cons entry entries ih =>
    obtain ⟨n, t⟩ := entry
    by_cases hn : n = name
    · subst hn
      simp [setEntry, List.lookup_cons, beq_false_of_ne h]
    · simp [setEntry, hn, List.lookup_cons, ih]

/-! ### The file of a path -/

/-- A path stands for a file: it leads to a folder and on by a name under which no folder stands
    there. The file does not have to be there. -/
inductive Denotes (tree : FileTree) (path : String) : List String → Prop
  | intro {before here : List String} {last : String} (relative : ¬ path.startsWith "/" = true)
      (hs : steps path = before ++ [last]) (hl : last ∉ ["", ".", ".."])
      (lead : tree.Leads before [] here) (hf : tree.look here = some .folder)
      (hn : tree.look (here ++ [last]) ≠ some .folder) : Denotes tree path (here ++ [last])

/-- A name stands for the file in the tree that has it. -/
theorem denotes_name {name : String} (h : IsName name) (hf : tree.look [] = some .folder)
    (hn : tree.look [name] ≠ some .folder) : tree.Denotes name [name] :=
  @Denotes.intro tree name [] [] name h.relative (steps_of_notMem h.notMem) h.notMem_steps .done hf hn

/-- A path stands for one file only. -/
theorem Denotes.unique {other : List String} (h : tree.Denotes path names)
    (h' : tree.Denotes path other) : names = other := by
  obtain ⟨-, hs, -, lead, -, -⟩ := h
  obtain ⟨-, hs', -, lead', -, -⟩ := h'
  obtain ⟨rfl, hlast⟩ := List.append_inj' (hs.symm.trans hs') rfl
  rw [lead.unique lead', hlast]

/-- A path leads to the file for which it stands, if it is there. -/
theorem Denotes.locates (h : tree.Denotes path names) (hp : tree.look names ≠ none) :
    tree.Locates path names := by
  obtain @⟨before, here, last, hr, hs, hl, lead, hf, hn⟩ := h
  refine ⟨?_, hr, hs ▸ lead.append (.enter hl hp .done)⟩
  intro he
  have hempty : steps "" = [""] := steps_of_notMem List.not_mem_nil
  have hlast : last ∈ [""] := by
    rw [← hempty, ← he, hs]
    exact List.mem_concat_self
  rw [List.mem_singleton.1 hlast] at hl
  exact hl List.mem_cons_self

/-- A path at which nothing stands stands for a file that is not there. -/
theorem Denotes.look_eq_none (h : tree.Denotes path names) (hp : tree.exists? path = false) :
    tree.look names = none := by
  by_contra hn
  rw [exists?_iff.2 ⟨names, h.locates hn⟩] at hp
  cases hp

theorem Denotes.isName (h : tree.Denotes path names) : ∀ name ∈ names, IsName name := by
  obtain ⟨hr, hs, hl, lead, hf, hn⟩ := h
  have hslash : ∀ step ∈ steps path, '/' ∉ step.toList := fun step => notMem_of_mem_steps
  rw [hs] at hslash
  obtain ⟨hbefore, hlast⟩ := List.forall_mem_append.1 hslash
  refine List.forall_mem_append.2 ⟨lead.isName hbefore (by simp), List.forall_mem_singleton.2 ?_⟩
  exact .of_notMem hl (hlast _ List.mem_cons_self)

/-- Giving a file a text leads from one tree to another. The file is made if it is not there. -/
inductive Saved (text : String) : List String → FileTree → FileTree → Prop
  | entry {name : String} {entries : List (String × FileTree)}
      (h : (entries.lookup name).map face ≠ some .folder) :
      Saved text [name] (.folder entries) (.folder (setEntry name (.file (some text)) entries))
  | inner {name : String} {names : List String} {entries : List (String × FileTree)}
      {node node' : FileTree} (hn : entries.lookup name = some node)
      (h : Saved text names node node') :
      Saved text (name :: names) (.folder entries) (.folder (setEntry name node' entries))

/-- What is saved below a place is saved in the tree around it. -/
theorem Place.Has.saved {p : Place} {below : List String} {node' : FileTree}
    (hp : p.Has tree names) (h : Saved text below p.node node') :
    Saved text (names ++ below) tree (Place.root ⟨node', p.above⟩) := by
  induction hp generalizing below node' with
  | root => exact h
  | entry hp hn ih =>
    rw [List.append_assoc]
    exact ih (.inner hn h)

theorem steps_eq_concat (path : String) : ∃ before last, steps path = before ++ [last] := by
  rcases List.eq_nil_or_concat' (steps path) with h | h
  · rw [steps_eq, List.map_eq_nil_iff] at h
    exact absurd h (List.splitOn_ne_nil '/' path.toList)
  · exact h

/-- The last name of a path is its last step, if that is not empty. -/
theorem dropWhile_steps {before : List String} {last : String} (hs : steps path = before ++ [last])
    (he : last ≠ "") : (steps path).reverse.dropWhile (· = "") = last :: before.reverse := by
  simp [hs, he]

/-- A write to a path whose last step is a name goes to the folder of the name, unless a folder has
    the name there. -/
theorem write_of_steps {before : List String} {last : String} (hr : ¬ path.startsWith "/" = true)
    (hs : steps path = before ++ [last]) (hl : last ∉ ["", ".", ".."]) (text : String) :
    tree.write path text =
      match follow before ⟨tree, []⟩ with
      | .error e => .error e
      | .ok ⟨.file _, _⟩ => .error .notFolder
      | .ok ⟨.folder entries, above⟩ =>
        if (entries.lookup last).map face = some .folder then .error .isFolder
        else .ok (Place.root ⟨.folder (setEntry last (.file (some text)) entries), above⟩) := by
  have hd : ¬ (last = "." ∨ last = "..") := fun h => hl (by rcases h with rfl | rfl <;> simp)
  have he : last ≠ "" := fun h => hl (by simp [h])
  have hlen : ¬ (last :: before.reverse).length < (steps path).length := by simp [hs]
  simp only [write, dropWhile_steps hs he, if_neg hr, if_neg hd, if_neg hlen, List.reverse_reverse]
  cases follow before ⟨tree, []⟩ with
  | error e => rfl
  | ok p =>
    obtain ⟨_ | entries, above⟩ := p
    · rfl
    · rcases he : entries.lookup last with _ | _ | _ <;> simp [he, face]

/-- What has been written has a path whose last step is a name. -/
theorem steps_of_write (h : tree.write path text = .ok tree') :
    ¬ path.startsWith "/" = true ∧
      ∃ before last, steps path = before ++ [last] ∧ last ∉ ["", ".", ".."] := by
  obtain ⟨before, last, hs⟩ := steps_eq_concat path
  simp only [write] at h
  by_cases he : last = ""
  · -- the last name is not the last step, so no file is meant
    have hlt : ((steps path).reverse.dropWhile (· = "")).length < (steps path).length := by
      have hle := (List.dropWhile_sublist (fun s : String => decide (s = ""))
        (l := before.reverse)).length_le
      simp [hs, he] at hle ⊢
      omega
    split at h
    · cases h
    · split_ifs at h
      · split at h <;> cases h
      · split at h <;> cases h
  · simp only [dropWhile_steps hs he] at h
    split_ifs at h with hr hd
    · split at h <;> cases h
    all_goals
      obtain ⟨hh, ha⟩ := not_or.1 hd
      exact ⟨hr, before, last, hs, notMem_steps_iff.2 ⟨not_or.2 ⟨he, hh⟩, ha⟩⟩

/-- A write makes the file for which the path stands. -/
theorem saved_of_write (h : tree.write path text = .ok tree') :
    ∃ names, tree.Denotes path names ∧ Saved text names tree tree' := by
  obtain ⟨hr, before, last, hs, hl⟩ := steps_of_write h
  rw [write_of_steps hr hs hl] at h
  cases hf : follow before ⟨tree, []⟩ with
  | error e => simp [hf] at h
  | ok p =>
    obtain ⟨here, lead, hp⟩ := leads_of_follow .root hf
    obtain ⟨_ | entries, above⟩ := p
    · simp [hf] at h
    · simp only [hf] at h
      split_ifs at h with hn
      cases h
      refine ⟨here ++ [last], .intro hr hs hl lead hp.look ?_, hp.saved (.entry hn)⟩
      rwa [look_append_singleton hp.at?]

/-- For what a path stands can be written, whatever the text. -/
theorem Denotes.write (h : tree.Denotes path names) (text : String) :
    ∃ tree', tree.write path text = .ok tree' := by
  obtain ⟨hr, hs, hl, lead, hf, hn⟩ := h
  obtain ⟨p, hp, hh⟩ := lead.follow .root
  obtain ⟨entries, above, rfl⟩ := hh.exists_folder hf
  rw [look_append_singleton hh.at?] at hn
  simp only [write_of_steps hr hs hl, hp, if_neg hn]
  exact ⟨_, rfl⟩

/-! ### What is as before -/

@[simp]
theorem look_nil : tree.look [] = some tree.face := by
  simp [look]

@[simp]
theorem look_file_cons (text : Option String) (name : String) (names : List String) :
    (FileTree.file text).look (name :: names) = none := rfl

theorem look_folder_cons (entries : List (String × FileTree)) (name : String) (names : List String) :
    (FileTree.folder entries).look (name :: names) =
      (entries.lookup name).bind fun node => node.look names := by
  rw [look, at?, Option.map_bind]
  rfl

theorem Saved.look_self (h : Saved text names tree tree') :
    tree'.look names = some (.file (some text)) := by
  induction h with
  | entry h => simp [look_folder_cons, lookup_setEntry_self, face]
  | inner hn h ih => simp [look_folder_cons, lookup_setEntry_self, ih]

theorem Saved.look_of_ne {other : List String} (h : Saved text names tree tree')
    (hne : other ≠ names) : tree'.look other = tree.look other := by
  induction h generalizing other with
  | @entry name entries h =>
    rcases other with _ | ⟨first, other⟩
    · rfl
    · rw [look_folder_cons, look_folder_cons]
      by_cases hf : first = name
      · subst hf
        rw [lookup_setEntry_self]
        obtain ⟨second, other, rfl⟩ := List.exists_cons_of_ne_nil (by simpa using hne)
        rcases he : entries.lookup first with _ | _ | _ <;> simp_all [face]
      · rw [lookup_setEntry_of_ne hf]
  | @inner name names entries node node' hn h ih =>
    rcases other with _ | ⟨first, other⟩
    · rfl
    · rw [look_folder_cons, look_folder_cons]
      by_cases hf : first = name
      · subst hf
        rw [lookup_setEntry_self, hn]
        exact ih (by simpa using hne)
      · rw [lookup_setEntry_of_ne hf]

/-- A file that is saved was no folder. -/
theorem Saved.look_ne (h : Saved text names tree tree') : tree.look names ≠ some .folder := by
  induction h with
  | entry h => simpa [look_folder_cons, Option.map_eq_bind, Function.comp_def] using h
  | inner hn h ih => rwa [look_folder_cons, hn]

/-- Folders are where they were. -/
theorem Saved.look_eq_folder_iff (h : Saved text names tree tree') (other : List String) :
    tree'.look other = some .folder ↔ tree.look other = some .folder := by
  by_cases hne : other = names
  · subst hne
    simp [h.look_self, h.look_ne]
  · rw [h.look_of_ne hne]

theorem Saved.look_ne_none (h : Saved text names tree tree') {other : List String}
    (ho : tree.look other ≠ none) : tree'.look other ≠ none := by
  by_cases hne : other = names
  · subst hne
    simp [h.look_self]
  · rwa [h.look_of_ne hne]

/-- Where steps have led they still lead. -/
theorem Saved.leads {steps here there : List String} (h : Saved text names tree tree')
    (hl : tree.Leads steps here there) : tree'.Leads steps here there := by
  induction hl with
  | done => exact .done
  | stay hf hs hl ih => exact .stay ((h.look_eq_folder_iff _).2 hf) hs ih
  | back hf hs hl ih => exact .back ((h.look_eq_folder_iff _).2 hf) hs ih
  | enter hs hn hl ih => exact .enter hs (h.look_ne_none hn) ih

/-- Nothing leads on from a file. -/
theorem Leads.eq_of_file {steps here there : List String} {text : Option String}
    (h : tree.Leads steps here there) (hf : tree.look here = some (.file text)) : there = here := by
  cases h with
  | done => rfl
  | stay hh => simp [hf] at hh
  | back hh => simp [hf] at hh
  | enter hs hn =>
    have hh := look_of_look_append hn
    simp [hf] at hh

/-- Where steps lead they have led before, or they lead to the file that has been saved. -/
theorem Saved.leads_or {steps here there : List String} (h : Saved text names tree tree')
    (hl : tree'.Leads steps here there) : there = names ∨ tree.Leads steps here there := by
  induction hl with
  | done => exact Or.inr .done
  | stay hf hs hl ih => exact ih.imp_right (.stay ((h.look_eq_folder_iff _).1 hf) hs)
  | back hf hs hl ih => exact ih.imp_right (.back ((h.look_eq_folder_iff _).1 hf) hs)
  | @enter step rest here there hs hn hl ih =>
    by_cases hne : here ++ [step] = names
    · left
      rw [← hne]
      exact hl.eq_of_file (hne ▸ h.look_self)
    · exact ih.imp_right (.enter hs (h.look_of_ne hne ▸ hn))

/-- Paths stand for the files for which they stood. -/
theorem Saved.denotes_iff {other : List String} (h : Saved text names tree tree') (path : String) :
    tree'.Denotes path other ↔ tree.Denotes path other := by
  constructor
  · rintro ⟨hr, hs, hl, lead, hf, hn⟩
    rw [h.look_eq_folder_iff] at hf
    rw [ne_eq, h.look_eq_folder_iff] at hn
    refine .intro hr hs hl ?_ hf hn
    refine (h.leads_or lead).resolve_left ?_
    rintro rfl
    exact h.look_ne hf
  · rintro ⟨hr, hs, hl, lead, hf, hn⟩
    rw [← h.look_eq_folder_iff] at hf
    rw [ne_eq, ← h.look_eq_folder_iff] at hn
    exact .intro hr hs hl (h.leads lead) hf hn

theorem Saved.locates {other : List String} (h : Saved text names tree tree')
    (hl : tree.Locates path other) : tree'.Locates path other :=
  ⟨hl.ne_empty, hl.relative, h.leads hl.leads⟩

theorem Saved.locates_or {other : List String} (h : Saved text names tree tree')
    (hl : tree'.Locates path other) : other = names ∨ tree.Locates path other :=
  (h.leads_or hl.leads).imp_right fun lead => ⟨hl.ne_empty, hl.relative, lead⟩

/-- What has been written can be read. -/
theorem read_of_write (h : tree.write path text = .ok tree') : tree'.read path = .ok text := by
  obtain ⟨names, hd, hs⟩ := saved_of_write h
  have hl := ((hs.denotes_iff path).2 hd).locates (by simp [hs.look_self])
  exact read_eq_ok_iff.2 ⟨names, hl, hs.look_self⟩

end FileTree

end Immutability
