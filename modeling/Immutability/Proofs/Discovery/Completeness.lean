import Immutability.Proofs.Discovery.Loading
import Immutability.Proofs.Files.Listing
import Immutability.Proofs.Text.Bytes

/-! Every document of a folder is found, once.

    The documents of a folder are the files below it whose names have the extension of JSON files. They
    come in the strict order of the components of their paths, however the files are listed, and so a
    graph is loaded from them in this order. -/

namespace Immutability

/-! ### Extensions -/

/-- A name ends in an extension: there is no dot in it, and something before the dot in front of it. -/
def HasExtension (name ext : String) : Prop :=
  '.' ∉ ext.toList ∧ ∃ stem, stem ≠ "" ∧ name = stem ++ "." ++ ext

theorem isDocumentName_iff {name : String} :
    isDocumentName name = true ↔ HasExtension name "json" := by
  rw [isDocumentName, Bool.and_eq_true, decide_eq_true_iff, List.isSuffixOf_iff_suffix]
  constructor
  · rintro ⟨hlen, stem, hs⟩
    refine ⟨by decide, String.ofList stem, ?_, ?_⟩
    · rintro he
      rw [← String.length_toList, ← hs, String.ofList_eq_empty_iff.1 he] at hlen
      exact absurd hlen (by decide)
    · apply String.toList_injective
      simp [← hs]
  · rintro ⟨-, stem, hne, rfl⟩
    rw [ne_eq, ← String.toList_eq_nil_iff, ← List.length_eq_zero_iff] at hne
    constructor
    · simp only [← String.length_toList, String.toList_append, List.length_append]
      have h : ".".toList.length + "json".toList.length = 5 := by decide
      omega
    · exact ⟨stem.toList, by simp⟩

/-! ### The strict order -/

/-- The bytes of steps. -/
def stepBytes (steps : List String) : List (List UInt8) := steps.map fun step => step.toUTF8.toList

/-- Steps that are ordered and differ are ordered as their bytes are. -/
theorem stepBytes_lt {a b : List String} (h : stepsLe a b = true) (hne : a ≠ b) :
    stepBytes a < stepBytes b := by
  induction a generalizing b with
  | nil =>
    cases b with
    | nil => exact absurd rfl hne
    | cons b bs => exact List.nil_lt_cons _ _
  | cons a as ih =>
    cases b with
    | nil => cases h
    | cons b bs =>
      rw [stepBytes, stepBytes, List.map_cons, List.map_cons, List.cons_lt_cons_iff]
      by_cases hab : a = b
      · subst hab
        rw [stepsLe, if_pos rfl] at h
        exact Or.inr ⟨rfl, ih h fun hs => hne (hs ▸ rfl)⟩
      · rw [stepsLe, if_neg hab, decide_eq_true_iff] at h
        exact Or.inl (bytes_lt_iff.2 h)

/-! ### The documents among files -/

variable {tree : FileTree} {root path : String} {here : List String}

theorem mem_documentsAmong_iff {files : List (List String)} :
    path ∈ documentsAmong root files ↔ ∃ steps ∈ files,
      HasExtension (steps.getLastD (lastStep root)) "json" ∧ path = joinSteps root steps := by
  rw [documentsAmong, List.mem_map]
  simp only [List.mem_mergeSort, List.mem_filter, isDocumentName_iff, and_assoc]
  simp only [eq_comm]

/-- Among files that are listed once, documents come in a strict order. -/
theorem documentsAmong_increasing {files : List (List String)} (hr : root ≠ "") (hd : files.Nodup)
    (hf : ∀ steps ∈ files, ∀ step ∈ steps, FileTree.IsName step) :
    (documentsAmong root files).Pairwise fun p q =>
      stepBytes (FileTree.components p) < stepBytes (FileTree.components q) := by
  rw [documentsAmong, List.pairwise_map]
  have hmem : ∀ {steps}, steps ∈ (files.filter fun steps =>
      isDocumentName (steps.getLastD (lastStep root))).mergeSort stepsLe → steps ∈ files :=
    fun h => (List.mem_filter.1 (List.mem_mergeSort.1 h)).1
  have hnodup := ((List.mergeSort_perm _ stepsLe).nodup_iff).2 (hd.filter fun steps =>
    isDocumentName (steps.getLastD (lastStep root)))
  refine ((ordered_mergeSort _).and hnodup).imp_of_mem ?_
  rintro a b ha hb ⟨hle, hne⟩
  rw [FileTree.components_joinSteps hr (hf a (hmem ha)),
    FileTree.components_joinSteps hr (hf b (hmem hb)), stepBytes, stepBytes, List.map_append,
    List.map_append]
  exact List.append_left_lt (stepBytes_lt hle hne)

/-! ### Walks -/

/-- The orders in which files are listed: each time the files at and below a path, in any order. -/
structure Walks where
  list : Nat → FileTree → String → List (List String)
  list_perm : ∀ count tree path, (list count tree path).Perm (tree.filesBelow path)

/-- A tree on a disk, and how many times its files have been listed. -/
structure Disk (w : Walks) where
  tree : FileTree
  count : Nat

variable {w : Walks}

/-- The files of a disk. -/
instance : Files (StateM (Disk w)) where
  read path := do return (← get).tree.read path
  write path text := do
    let disk ← get
    match disk.tree.write path text with
    | .ok tree => set (⟨tree, disk.count⟩ : Disk w); return .ok ()
    | .error e => return .error e
  present path := do return (← get).tree.exists? path
  isFolder path := do return (← get).tree.isFolder path
  filesBelow path := do
    let disk ← get
    set (⟨disk.tree, disk.count + 1⟩ : Disk w)
    return w.list disk.count disk.tree path

theorem Disk.shows (tree : FileTree) : Shows tree fun disk : Disk w => disk.tree = tree where
  read {disk} hs path := ⟨disk, hs, by rw [← hs]; rfl⟩
  isFolder {disk} hs path := ⟨disk, hs, by rw [← hs]; rfl⟩
  filesBelow {disk} hs path :=
    ⟨⟨disk.tree, disk.count + 1⟩, w.list disk.count disk.tree path, hs,
      hs ▸ w.list_perm disk.count disk.tree path, rfl⟩

/-! ### Discovery -/

/-- The files below a folder, by their names. -/
theorem FileTree.Proper.mem_filesBelow_iff (ht : tree.Proper) (hl : tree.Locates root here)
    (hf : tree.look here = some .folder) {steps : List String} :
    steps ∈ tree.filesBelow root ↔ ∃ below name text, steps = below ++ [name] ∧
      tree.look (here ++ below ++ [name]) = some (.file text) := by
  obtain ⟨entries, he⟩ := look_eq_folder_iff.1 hf
  have hlook : ∀ steps, (FileTree.folder entries).look steps = tree.look (here ++ steps) := by
    intro steps
    rw [look, look, at?_append, he, Option.bind_some]
  rw [hl.filesBelow he, (ht.at? he).mem_files_iff, hlook]
  constructor
  · rintro ⟨text, hs⟩
    rcases steps.eq_nil_or_concat' with rfl | ⟨below, name, rfl⟩
    · rw [List.append_nil, hf] at hs
      cases hs
    · exact ⟨below, name, text, rfl, by rwa [List.append_assoc]⟩
  · rintro ⟨below, name, text, rfl, hs⟩
    exact ⟨text, by rwa [← List.append_assoc]⟩

/-- The documents of a folder are the files below it, at any depth, whose names have the extension.
    Each comes once, and their components, compared as bytes, increase strictly. Whatever the order in
    which the files are listed, these are found, and they are what a graph is loaded from. -/
theorem run_discover (ht : tree.Proper) (hr : tree.isFolder root = true) :
    ∃ here documents, tree.Locates root here ∧
      (∀ path, path ∈ documents ↔ ∃ below name text, path = joinSteps root (below ++ [name]) ∧
        HasExtension name "json" ∧ tree.Locates path (here ++ below ++ [name]) ∧
        tree.look (here ++ below ++ [name]) = some (.file text)) ∧
      documents.Nodup ∧
      documents.Pairwise (fun p q =>
        stepBytes (FileTree.components p) < stepBytes (FileTree.components q)) ∧
      ∀ (w : Walks) (count : Nat),
        ((discover root : StateM (Disk w) _) ⟨tree, count⟩).1 = documents ∧
        ((loadPaths [root] : StateM (Disk w) _) ⟨tree, count⟩).1 =
          TypeGraph.empty.load (documents.map fun path => ⟨path, tree.read path⟩) ∧
        ∀ paths, ((loadPaths paths : StateM (Disk w) _) ⟨tree, count⟩).1 =
          TypeGraph.empty.load (tree.findings paths) := by
  obtain ⟨here, hl, hf⟩ := FileTree.isFolder_iff.1 hr
  obtain ⟨entries, he⟩ := FileTree.look_eq_folder_iff.1 hf
  have hbelow := hl.filesBelow he
  have hproper := ht.at? he
  have hincreasing := documentsAmong_increasing hl.ne_empty (hbelow ▸ hproper.files_nodup)
    fun steps hs => hproper.isName_of_mem_files (hbelow ▸ hs)
  refine ⟨here, documentsAmong root (tree.filesBelow root), hl, ?_, ?_, hincreasing, ?_⟩
  · intro path
    rw [mem_documentsAmong_iff]
    constructor
    · rintro ⟨steps, hs, hext, rfl⟩
      have hnames := hproper.isName_of_mem_files (hbelow ▸ hs)
      obtain ⟨below, name, text, rfl, hlook⟩ := (ht.mem_filesBelow_iff hl hf).1 hs
      rw [List.getLastD_concat] at hext
      refine ⟨below, name, text, rfl, hext, ?_, hlook⟩
      rw [List.append_assoc] at hlook ⊢
      exact hl.joinSteps hnames (by simp [hlook])
    · rintro ⟨below, name, text, rfl, hext, -, hlook⟩
      refine ⟨below ++ [name], (ht.mem_filesBelow_iff hl hf).2 ⟨_, _, _, rfl, hlook⟩, ?_, rfl⟩
      rwa [List.getLastD_concat]
  · refine hincreasing.imp ?_
    rintro p q hlt rfl
    exact absurd hlt (List.lt_irrefl _)
  · intro w count
    have hs : (⟨tree, count⟩ : Disk w).tree = tree := rfl
    have hload : ∀ paths, ((loadPaths paths : StateM (Disk w) _) ⟨tree, count⟩).1 =
        TypeGraph.empty.load (tree.findings paths) := by
      intro paths
      obtain ⟨disk, -, hp⟩ := (Disk.shows tree).loadPaths hs paths
      rw [hp]
    refine ⟨?_, ?_, hload⟩
    · obtain ⟨disk, -, hd⟩ := (Disk.shows tree).discover hs root
      rw [hd]
    · rw [hload, FileTree.findings, List.flatMap_singleton, FileTree.documentsAt, if_pos hr]

/-- A folder with folders in it, one of them named like a document. -/
def nestedFolder : FileTree :=
  .folder [("d", .folder [("x.json", .folder [("c.json", .file (some "C"))]),
    ("a.json", .file none), (".json", .file (some "")), ("a", .folder [("b.json", .file (some "B"))]),
    ("a.JSON", .file (some "A"))])]

/-- Walks that list files backwards. -/
def Walks.backwards : Walks where
  list _ tree path := (tree.filesBelow path).reverse
  list_perm _ _ _ := List.reverse_perm _

theorem nestedFolder_proper : nestedFolder.Proper := by
  refine .folder (by decide) (by decide) ?_
  simp only [List.forall_mem_cons, List.not_mem_nil, false_implies, implies_true, and_true]
  refine .folder (by decide) (by decide) ?_
  simp only [List.forall_mem_cons, List.not_mem_nil, false_implies, implies_true, and_true]
  refine ⟨.folder (by decide) (by decide) ?_, .file none, .file _, .folder (by decide) (by decide) ?_,
    .file _⟩
  · simpa using .file _
  · simpa using .file _

theorem nestedFolder_locates : nestedFolder.Locates "d" ["d"] :=
  FileTree.locates_name (by decide) (Option.some_ne_none _)

/-- The folder of a document comes before the document with the same name in front of its dot. -/
theorem documentsAmong_nestedFolder : documentsAmong "d" (nestedFolder.filesBelow "d") =
    ["d/a/b.json", "d/a.json", "d/x.json/c.json"] := by
  have hfiles : nestedFolder.filesBelow "d" =
      [["x.json", "c.json"], ["a.json"], [".json"], ["a", "b.json"], ["a.JSON"]] := by
    rw [nestedFolder_locates.filesBelow rfl]
    rfl
  have hfilter : (nestedFolder.filesBelow "d").filter
      (fun steps => isDocumentName (steps.getLastD (lastStep "d"))) =
      [["x.json", "c.json"], ["a.json"], ["a", "b.json"]] := by
    rw [hfiles]
    decide
  have hsort : [["x.json", "c.json"], ["a.json"], ["a", "b.json"]].mergeSort stepsLe =
      [["a", "b.json"], ["a.json"], ["x.json", "c.json"]] := by
    refine (mergeSort_eq_of_perm ?_).trans (List.mergeSort_of_pairwise ?_)
    · decide
    · decide
  rw [documentsAmong, hfilter, hsort]
  decide +kernel

theorem run_discover_backwards : nestedFolder.Proper ∧ nestedFolder.isFolder "d" = true ∧
    ((discover "d" : StateM (Disk .backwards) _) ⟨nestedFolder, 0⟩).1 =
      ["d/a/b.json", "d/a.json", "d/x.json/c.json"] := by
  have hr : nestedFolder.isFolder "d" = true :=
    FileTree.isFolder_iff.2 ⟨_, nestedFolder_locates, rfl⟩
  obtain ⟨here, documents, -, -, -, -, h⟩ := run_discover nestedFolder_proper hr
  refine ⟨nestedFolder_proper, hr, ?_⟩
  have hforwards := (h ⟨fun _ tree path => tree.filesBelow path, fun _ _ _ => .refl _⟩ 0).1
  rw [(h .backwards 0).1, ← hforwards]
  exact documentsAmong_nestedFolder

end Immutability
