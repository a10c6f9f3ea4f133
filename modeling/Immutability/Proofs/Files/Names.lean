import Immutability.Proofs.Files.Steps

/-! Where paths lead in a tree.

    What stands in a tree can be called by names: those of the entries through which it is reached
    from the root. A path leads to names (`Locates`), many paths to the same. What a path gives, read
    or listed, depends on the names and on what stands there. -/

namespace Immutability

namespace FileTree

/-! ### Names -/

/-- What is seen of a node without looking below it. -/
inductive Face where
  | file (text : Option String)
  | folder
  deriving DecidableEq

def face : FileTree → Face
  | .file text => .file text
  | .folder _ => .folder

/-- The node that has the names. -/
def at? : FileTree → List String → Option FileTree
  | node, [] => some node
  | .file _, _ :: _ => none
  | .folder entries, name :: names => (entries.lookup name).bind fun node => node.at? names

/-- What is seen under the names. -/
def look (tree : FileTree) (names : List String) : Option Face := (tree.at? names).map face

/-- A text that an entry can be given as its name: it leads neither on nor back. -/
structure IsName (name : String) : Prop where
  ne_empty : name ≠ ""
  ne_here : name ≠ "."
  ne_above : name ≠ ".."
  notMem : '/' ∉ name.toList

instance (name : String) : Decidable (IsName name) :=
  decidable_of_iff (name ≠ "" ∧ name ≠ "." ∧ name ≠ ".." ∧ '/' ∉ name.toList)
    ⟨fun ⟨he, hh, ha, hn⟩ => ⟨he, hh, ha, hn⟩, fun ⟨he, hh, ha, hn⟩ => ⟨he, hh, ha, hn⟩⟩

variable {tree : FileTree} {path : String} {names : List String}

/-- A step that leads on neither stays where it is nor leads back. -/
theorem notMem_steps_iff {step : String} :
    step ∉ ["", ".", ".."] ↔ ¬ (step = "" ∨ step = ".") ∧ step ≠ ".." := by
  simp [and_assoc]

theorem IsName.of_notMem {name : String} (h : name ∉ ["", ".", ".."]) (hn : '/' ∉ name.toList) :
    IsName name := by
  obtain ⟨hs, ha⟩ := notMem_steps_iff.1 h
  exact ⟨(not_or.1 hs).1, (not_or.1 hs).2, ha, hn⟩

theorem IsName.notMem_steps {name : String} (h : IsName name) : name ∉ ["", ".", ".."] :=
  notMem_steps_iff.2 ⟨not_or.2 ⟨h.ne_empty, h.ne_here⟩, h.ne_above⟩

theorem IsName.relative {name : String} (h : IsName name) : ¬ name.startsWith "/" = true := by
  rw [String.startsWith_string_iff]
  exact fun hp => h.notMem (hp.subset List.mem_cons_self)

@[simp]
theorem at?_nil : tree.at? [] = some tree := by
  cases tree <;> rfl

theorem at?_append (before after : List String) :
    tree.at? (before ++ after) = (tree.at? before).bind fun node => node.at? after := by
  induction before generalizing tree with
  | nil => simp
  | cons name before ih =>
    cases tree with
    | file text => rfl
    | folder entries =>
      rw [List.cons_append, at?, at?, Option.bind_assoc]
      exact congrArg _ (funext fun node => ih)

theorem look_eq_folder_iff :
    tree.look names = some .folder ↔ ∃ entries, tree.at? names = some (.folder entries) := by
  rw [look, Option.map_eq_some_iff]
  constructor
  · rintro ⟨node, h, hf⟩
    cases node with
    | file text => cases hf
    | folder entries => exact ⟨entries, h⟩
  · rintro ⟨entries, h⟩
    exact ⟨_, h, rfl⟩

theorem look_eq_file_iff {text : Option String} :
    tree.look names = some (.file text) ↔ tree.at? names = some (.file text) := by
  rw [look, Option.map_eq_some_iff]
  constructor
  · rintro ⟨node, h, hf⟩
    cases node with
    | file text => cases hf; exact h
    | folder entries => cases hf
  · intro h
    exact ⟨_, h, rfl⟩

/-- Where an entry stands there is a folder around it. -/
theorem look_of_look_append {name : String} (h : tree.look (names ++ [name]) ≠ none) :
    tree.look names = some .folder := by
  rw [look, at?_append] at h
  cases hn : tree.at? names with
  | none => simp [hn] at h
  | some node =>
    cases node with
    | file text => simp [hn, at?] at h
    | folder entries => exact look_eq_folder_iff.2 ⟨entries, hn⟩

/-- What is seen of an entry of a folder. -/
theorem look_append_singleton {entries : List (String × FileTree)} {name : String}
    (h : tree.at? names = some (.folder entries)) :
    tree.look (names ++ [name]) = (entries.lookup name).map face := by
  rw [look, at?_append, h, Option.bind_some, at?]
  simp

/-! ### Places -/

/-- A place in a tree is what has the names, below the folders that are passed. -/
inductive Place.Has (tree : FileTree) : List String → Place → Prop
  | root : Has tree [] ⟨tree, []⟩
  | entry {names : List String} {entries : List (String × FileTree)}
      {above : List (String × List (String × FileTree))} {name : String} {node : FileTree}
      (h : Has tree names ⟨.folder entries, above⟩) (hn : entries.lookup name = some node) :
      Has tree (names ++ [name]) ⟨node, (name, entries) :: above⟩

theorem Place.Has.at? {p : Place} (h : p.Has tree names) : tree.at? names = some p.node := by
  induction h with
  | root => exact at?_nil
  | entry h hn ih => simp [at?_append, ih, FileTree.at?, hn]

theorem Place.Has.look {p : Place} (h : p.Has tree names) : tree.look names = some p.node.face := by
  rw [FileTree.look, h.at?, Option.map_some]

theorem Place.Has.exists_folder {p : Place} (h : p.Has tree names)
    (hf : tree.look names = some .folder) : ∃ entries above, p = ⟨.folder entries, above⟩ := by
  obtain ⟨node, above⟩ := p
  cases node with
  | file text => cases hf.symm.trans h.look
  | folder entries => exact ⟨entries, above, rfl⟩

/-- The place of the folder around a place. The root is around itself. -/
def Place.back : Place → Place
  | ⟨node, []⟩ => ⟨node, []⟩
  | ⟨_, (_, entries) :: above⟩ => ⟨.folder entries, above⟩

theorem Place.Has.back {p : Place} (h : p.Has tree names) : p.back.Has tree names.dropLast := by
  cases h with
  | root => exact .root
  | entry h hn => rwa [List.dropLast_concat]

/-! ### Paths -/

/-- Steps lead in a tree from names to names. -/
inductive Leads (tree : FileTree) : List String → List String → List String → Prop
  | done {here : List String} : Leads tree [] here here
  | stay {step : String} {rest here there : List String} (hf : tree.look here = some .folder)
      (hs : step = "" ∨ step = ".") (h : Leads tree rest here there) :
      Leads tree (step :: rest) here there
  | back {step : String} {rest here there : List String} (hf : tree.look here = some .folder)
      (hs : step = "..") (h : Leads tree rest here.dropLast there) :
      Leads tree (step :: rest) here there
  | enter {step : String} {rest here there : List String} (hs : step ∉ ["", ".", ".."])
      (hn : tree.look (here ++ [step]) ≠ none) (h : Leads tree rest (here ++ [step]) there) :
      Leads tree (step :: rest) here there

/-- A path leads to names. -/
structure Locates (tree : FileTree) (path : String) (names : List String) : Prop where
  ne_empty : path ≠ ""
  relative : ¬ path.startsWith "/" = true
  leads : tree.Leads (steps path) [] names

theorem Leads.append {first second here there beyond : List String}
    (h : tree.Leads first here there) (h' : tree.Leads second there beyond) :
    tree.Leads (first ++ second) here beyond := by
  induction h with
  | done => exact h'
  | stay hf hs h ih => exact .stay hf hs (ih h')
  | back hf hs h ih => exact .back hf hs (ih h')
  | enter hs hn h ih => exact .enter hs hn (ih h')

/-- Steps lead to one place only. -/
theorem Leads.unique {steps here there other : List String} (h : tree.Leads steps here there)
    (h' : tree.Leads steps here other) : there = other := by
  induction h with
  | done =>
    cases h'
    rfl
  | stay hf hs h ih =>
    cases h' with
    | stay _ _ h' => exact ih h'
    | back _ hs' => simp [hs'] at hs
    | enter hs' => exact absurd hs (notMem_steps_iff.1 hs').1
  | back hf hs h ih =>
    cases h' with
    | stay _ hs' => simp [hs] at hs'
    | back _ _ h' => exact ih h'
    | enter hs' => exact absurd hs (notMem_steps_iff.1 hs').2
  | enter hs hn h ih =>
    cases h' with
    | stay _ hs' => exact absurd hs' (notMem_steps_iff.1 hs).1
    | back _ hs' => exact absurd hs' (notMem_steps_iff.1 hs).2
    | enter _ _ h' => exact ih h'

theorem Leads.split {first second here beyond : List String}
    (h : tree.Leads (first ++ second) here beyond) :
    ∃ there, tree.Leads first here there ∧ tree.Leads second there beyond := by
  induction first generalizing here with
  | nil => exact ⟨here, .done, h⟩
  | cons step first ih =>
    cases h with
    | stay hf hs h =>
      obtain ⟨there, h, h'⟩ := ih h
      exact ⟨there, .stay hf hs h, h'⟩
    | back hf hs h =>
      obtain ⟨there, h, h'⟩ := ih h
      exact ⟨there, .back hf hs h, h'⟩
    | enter hs hn h =>
      obtain ⟨there, h, h'⟩ := ih h
      exact ⟨there, .enter hs hn h, h'⟩

theorem follow_stay {step : String} (hs : step = "" ∨ step = ".") (rest : List String)
    (entries : List (String × FileTree)) (above : List (String × List (String × FileTree))) :
    follow (step :: rest) ⟨.folder entries, above⟩ = follow rest ⟨.folder entries, above⟩ :=
  if_pos hs

theorem follow_back (rest : List String) (entries : List (String × FileTree))
    (above : List (String × List (String × FileTree))) :
    follow (".." :: rest) ⟨.folder entries, above⟩ =
      follow rest (Place.back ⟨.folder entries, above⟩) := by
  cases above <;> rfl

theorem follow_enter {step : String} (hs : step ∉ ["", ".", ".."]) (rest : List String)
    (entries : List (String × FileTree)) (above : List (String × List (String × FileTree))) :
    follow (step :: rest) ⟨.folder entries, above⟩ =
      match entries.lookup step with
      | none => .error .notFound
      | some node => follow rest ⟨node, (step, entries) :: above⟩ := by
  obtain ⟨hs, ha⟩ := notMem_steps_iff.1 hs
  cases hn : entries.lookup step <;> simp only [follow, if_neg hs, if_neg ha, hn]

/-- Following steps leads to the place that has the names to which they lead. -/
theorem Leads.follow {steps here there : List String} {p : Place} (h : tree.Leads steps here there)
    (hp : p.Has tree here) : ∃ p', follow steps p = .ok p' ∧ p'.Has tree there := by
  induction h generalizing p with
  | done => exact ⟨p, rfl, hp⟩
  | stay hf hs h ih =>
    obtain ⟨entries, above, rfl⟩ := hp.exists_folder hf
    rw [follow_stay hs]
    exact ih hp
  | back hf hs h ih =>
    obtain ⟨entries, above, rfl⟩ := hp.exists_folder hf
    rw [hs, follow_back]
    exact ih hp.back
  | @enter step rest here there hs hn h ih =>
    obtain ⟨entries, above, rfl⟩ := hp.exists_folder (look_of_look_append hn)
    rw [look_append_singleton hp.at?] at hn
    cases he : entries.lookup step with
    | none => simp [he] at hn
    | some node =>
      rw [follow_enter hs, he]
      exact ih (hp.entry he)

theorem leads_of_follow {steps here : List String} {p p' : Place} (hp : p.Has tree here)
    (h : follow steps p = .ok p') : ∃ there, tree.Leads steps here there ∧ p'.Has tree there := by
  induction steps generalizing p here with
  | nil =>
    cases h
    exact ⟨here, .done, hp⟩
  | cons step rest ih =>
    obtain ⟨node, above⟩ := p
    cases node with
    | file text => cases h
    | folder entries =>
      have hf : tree.look here = some .folder := hp.look
      by_cases hs : step ∈ ["", ".", ".."]
      · have hsplit : (step = "" ∨ step = ".") ∨ step = ".." := by simpa [or_assoc] using hs
        rcases hsplit with hs | rfl
        · rw [follow_stay hs] at h
          obtain ⟨there, hl, ht⟩ := ih hp h
          exact ⟨there, .stay hf hs hl, ht⟩
        · rw [follow_back] at h
          obtain ⟨there, hl, ht⟩ := ih hp.back h
          exact ⟨there, .back hf rfl hl, ht⟩
      · rw [follow_enter hs] at h
        cases he : entries.lookup step with
        | none => simp [he] at h
        | some node =>
          rw [he] at h
          obtain ⟨there, hl, ht⟩ := ih (hp.entry he) h
          refine ⟨there, .enter hs ?_ hl, ht⟩
          simp [look_append_singleton hp.at?, he]

/-- Steps lead through names that entries can be given. -/
theorem Leads.isName {steps here there : List String} (h : tree.Leads steps here there)
    (hs : ∀ step ∈ steps, '/' ∉ step.toList) (hh : ∀ name ∈ here, IsName name) :
    ∀ name ∈ there, IsName name := by
  induction h with
  | done => exact hh
  | stay hf _ h ih => exact ih (List.forall_mem_cons.1 hs).2 hh
  | back hf _ h ih =>
    exact ih (List.forall_mem_cons.1 hs).2 fun name hn => hh name (List.dropLast_subset _ hn)
  | @enter step rest here there hne hn h ih =>
    obtain ⟨hslash, hs⟩ := List.forall_mem_cons.1 hs
    refine ih hs (List.forall_mem_append.2 ⟨hh, ?_⟩)
    exact List.forall_mem_singleton.2 (.of_notMem hne hslash)

theorem Locates.unique {other : List String} (h : tree.Locates path names)
    (h' : tree.Locates path other) : names = other :=
  h.leads.unique h'.leads

/-- A name leads to the entry of the tree that has it. -/
theorem locates_name {name : String} (h : IsName name) (hn : tree.look [name] ≠ none) :
    tree.Locates name [name] := by
  refine ⟨h.ne_empty, h.relative, ?_⟩
  rw [steps_of_notMem h.notMem]
  exact .enter h.notMem_steps hn .done

/-- That is all to which it leads. -/
theorem Locates.of_name {name : String} (hl : tree.Locates name names) (h : IsName name) :
    names = [name] ∧ tree.look [name] ≠ none := by
  have lead := hl.leads
  rw [steps_of_notMem h.notMem] at lead
  cases lead with
  | stay _ hs => exact absurd hs (notMem_steps_iff.1 h.notMem_steps).1
  | back _ hs => exact absurd hs h.ne_above
  | enter _ hn hd =>
    cases hd
    exact ⟨rfl, hn⟩

/-! ### What paths give -/

theorem place_eq_ok {p : Place} (h : tree.place path = .ok p) :
    ∃ names, tree.Locates path names ∧ p.Has tree names := by
  rw [place] at h
  split_ifs at h with hr
  simp only [Bool.or_eq_true, decide_eq_true_eq, not_or] at hr
  obtain ⟨names, hl, hp⟩ := leads_of_follow .root h
  exact ⟨names, ⟨hr.1, hr.2, hl⟩, hp⟩

theorem Locates.place (h : tree.Locates path names) :
    ∃ p, tree.place path = .ok p ∧ p.Has tree names := by
  obtain ⟨p, hp, hn⟩ := h.leads.follow .root
  refine ⟨p, ?_, hn⟩
  rw [FileTree.place, if_neg, hp]
  simp [h.ne_empty, h.relative]

theorem exists?_iff : tree.exists? path = true ↔ ∃ names, tree.Locates path names := by
  rw [exists?]
  constructor
  · intro h
    cases hp : tree.place path with
    | error e => simp [hp] at h
    | ok p =>
      obtain ⟨names, hl, -⟩ := place_eq_ok hp
      exact ⟨names, hl⟩
  · rintro ⟨names, hl⟩
    obtain ⟨p, hp, -⟩ := hl.place
    rw [hp]

/-- Something stands at a name exactly if an entry of the tree has it. -/
theorem exists?_name {name : String} (h : IsName name) :
    tree.exists? name = true ↔ tree.look [name] ≠ none := by
  rw [exists?_iff]
  constructor
  · rintro ⟨names, hl⟩
    exact (hl.of_name h).2
  · intro hn
    exact ⟨[name], locates_name h hn⟩

theorem isFolder_iff :
    tree.isFolder path = true ↔ ∃ names, tree.Locates path names ∧ tree.look names = some .folder := by
  rw [isFolder]
  constructor
  · intro h
    cases hp : tree.place path with
    | error e => simp [hp] at h
    | ok p =>
      obtain ⟨names, hl, hn⟩ := place_eq_ok hp
      obtain ⟨_ | entries, above⟩ := p
      · simp [hp] at h
      · exact ⟨names, hl, hn.look⟩
  · rintro ⟨names, hl, hf⟩
    obtain ⟨p, hp, hn⟩ := hl.place
    obtain ⟨entries, above, rfl⟩ := hn.exists_folder hf
    rw [hp]

theorem read_eq_ok_iff {text : String} : tree.read path = .ok text ↔
    ∃ names, tree.Locates path names ∧ tree.look names = some (.file (some text)) := by
  rw [read]
  constructor
  · intro h
    cases hp : tree.place path with
    | error e => simp [hp] at h
    | ok p =>
      obtain ⟨names, hl, hn⟩ := place_eq_ok hp
      obtain ⟨(_ | text') | entries, above⟩ := p
      · simp [hp] at h
      · simp only [hp, Except.ok.injEq] at h
        rw [← h]
        exact ⟨names, hl, hn.look⟩
      · simp [hp] at h
  · rintro ⟨names, hl, hf⟩
    obtain ⟨⟨node, above⟩, hp, hn⟩ := hl.place
    have hnode : node = .file (some text) :=
      Option.some_inj.1 (hn.at?.symm.trans (look_eq_file_iff.1 hf))
    rw [hp, hnode]

/-- The files below a path are those of what stands there. -/
theorem Locates.filesBelow {node : FileTree} (h : tree.Locates path names)
    (hn : tree.at? names = some node) : tree.filesBelow path = node.files := by
  obtain ⟨p, hp, hh⟩ := h.place
  rw [FileTree.filesBelow, hp, Option.some_inj.1 (hn.symm.trans hh.at?)]

/-- A file that can be read is no folder. -/
theorem isFolder_of_read {text : String} (h : tree.read path = .ok text) :
    tree.isFolder path = false := by
  rw [← Bool.not_eq_true, isFolder_iff]
  rintro ⟨names, hl, hf⟩
  obtain ⟨names', hl', hf'⟩ := read_eq_ok_iff.1 h
  rw [hl.unique hl', hf'] at hf
  cases hf

/-! ### Going on from a path -/

/-- What goes on from a path that is not empty and does not start at the root of the system starts
    where the path does. -/
theorem relative_joinSteps (hne : path ≠ "") (hr : ¬ path.startsWith "/" = true) (name : String) :
    joinSteps path [name] ≠ "" ∧ ¬ (joinSteps path [name]).startsWith "/" = true := by
  obtain ⟨more, hm⟩ : ∃ more, (joinSteps path [name]).toList = path.toList ++ more := by
    rw [joinSteps, List.foldl_cons, List.foldl_nil]
    split
    · exact ⟨name.toList, String.toList_append⟩
    · exact ⟨"/".toList ++ name.toList, by simp⟩
  rw [String.startsWith_string_iff] at hr ⊢
  rw [ne_eq, ← String.toList_eq_nil_iff] at hne ⊢
  rw [hm]
  obtain ⟨c, cs, hc⟩ := List.exists_cons_of_ne_nil hne
  simpa [hc] using hr

theorem look_ne_none_of_append {before after : List String} (h : tree.look (before ++ after) ≠ none) :
    tree.look before ≠ none := by
  intro hn
  rw [look, Option.map_eq_none_iff] at hn
  rw [look, at?_append, hn] at h
  exact h rfl

theorem Locates.joinSteps_singleton {name : String} (h : tree.Locates path names)
    (hname : IsName name) (hn : tree.look (names ++ [name]) ≠ none) :
    tree.Locates (joinSteps path [name]) (names ++ [name]) := by
  obtain ⟨hne, hr⟩ := relative_joinSteps h.ne_empty h.relative name
  have hs := hname.notMem_steps
  refine ⟨hne, hr, ?_⟩
  have hl := h.leads
  rcases steps_joinSteps_singleton path hname.notMem with hj | ⟨before, hb, hj⟩
  · rw [hj]
    exact hl.append (.enter hs hn .done)
  · -- the empty step stays where it is
    rw [hb] at hl
    obtain ⟨there, hl, hstay⟩ := hl.split
    cases hstay with
    | stay _ _ hd =>
      cases hd
      exact hj ▸ hl.append (.enter hs hn .done)
    | back _ hs => simp at hs
    | enter hs => simp at hs

/-- A path goes on from a folder to an entry, and from there further on. -/
theorem Locates.joinSteps {rest : List String} (h : tree.Locates path names)
    (hr : ∀ name ∈ rest, IsName name) (hn : tree.look (names ++ rest) ≠ none) :
    tree.Locates (joinSteps path rest) (names ++ rest) := by
  induction rest generalizing path names with
  | nil => simpa [Immutability.joinSteps] using h
  | cons name rest ih =>
    obtain ⟨hname, hr⟩ := List.forall_mem_cons.1 hr
    rw [List.append_cons] at hn ⊢
    exact ih (h.joinSteps_singleton hname (look_ne_none_of_append hn)) hr hn

end FileTree

end Immutability
