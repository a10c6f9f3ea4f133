import Immutability.Toml.Table

/-! Statements add entries at the end of a draft.

    Behind the header of a new table the assignments of new keys give it one entry after the other,
    however deep the table lies, and everything that stands before it remains. -/

namespace Immutability.Toml

variable {before entries : Entries} {key : String} {path : List String} {plug : Entries → Entries}

theorem lookup_eq_none_of_notMem {α : Type} {entries : List (String × α)}
    (h : key ∉ entries.map (·.1)) : entries.lookup key = none := by
  induction entries with
  | nil => rfl
  | cons e entries ih =>
    obtain ⟨hne, h⟩ := not_or.1 (mt List.mem_cons.2 h)
    rw [List.lookup_cons, beq_false_of_ne hne, ih h]

/-! ### Places -/

/-- Changing the table of a path changes what stands in a place, and nothing around it. -/
def Frame (path : List String) (plug : Entries → Entries) : Prop :=
  ∀ change entries, within change path (plug entries) = (change entries).map plug

theorem frame_root : Frame [] id := by
  intro change entries
  rw [within, id, Option.map_id, id]

/-- The last table of a draft is a place, and so are the places in it. -/
theorem Frame.append (h : Frame path plug) (hb : key ∉ before.map (·.1)) (origin : Origin) :
    Frame (key :: path) fun entries => before ++ [(key, .table origin (plug entries))] := by
  intro change entries
  have hl : (before ++ [(key, Node.table origin (plug entries))]).lookup key =
      some (.table origin (plug entries)) := by
    rw [List.lookup_append, lookup_eq_none_of_notMem hb, List.lookup_cons_self, Option.none_or]
  have hr : ∀ node, Entries.replace key node (before ++ [(key, .table origin (plug entries))]) =
      before ++ [(key, node)] := by
    intro node
    have hsame : Entries.replace key node before = before := by
      refine (List.map_congr_left fun e he => ?_).trans (List.map_id before)
      exact if_neg fun hk => hb (List.mem_map.2 ⟨e, he, hk⟩)
    rw [Entries.replace, List.map_append, ← Entries.replace, hsame]
    simp
  rw [within, hl]
  simp only [h change entries, Option.map_map, hr]
  rfl

/-! ### Assignments -/

/-- The assignments of keys and values. -/
def assignments (pairs : List (String × Value)) : List Statement :=
  pairs.map fun p => .assignment [] p.1 p.2

/-- The entries of keys and values. -/
def nodes (pairs : List (String × Value)) : Entries := pairs.map fun p => (p.1, .value p.2)

theorem takeAll_assignments (hf : Frame path plug) {pairs : List (String × Value)}
    (hn : (entries.map (·.1) ++ pairs.map (·.1)).Nodup) :
    Draft.takeAll (assignments pairs) ⟨plug entries, path⟩ =
      some ⟨plug (entries ++ nodes pairs), path⟩ := by
  induction pairs generalizing entries with
  | nil => simp [assignments, nodes, Draft.takeAll]
  | cons p pairs ih =>
    obtain ⟨k, v⟩ := p
    have hk : k ∉ entries.map (·.1) := fun hm =>
      (List.nodup_append.1 hn).2.2 k hm k List.mem_cons_self rfl
    have hassign : assign k v [] true entries = some (entries ++ [(k, .value v)]) := by
      simp [assign, lookup_eq_none_of_notMem hk]
    have htake : Draft.take ⟨plug entries, path⟩ (.assignment [] k v) =
        some ⟨plug (entries ++ [(k, .value v)]), path⟩ := by
      rw [Draft.take, hf, hassign]
      rfl
    have hn' : ((entries ++ [(k, Node.value v)]).map (·.1) ++ pairs.map (·.1)).Nodup := by
      simpa using hn
    rw [assignments, List.map_cons, Draft.takeAll, htake, Option.bind_some]
    refine (ih hn').trans ?_
    simp [nodes]

theorem takeAll_append (ss ts : List Statement) (d : Draft) :
    Draft.takeAll (ss ++ ts) d = (Draft.takeAll ss d).bind (Draft.takeAll ts) := by
  induction ss generalizing d with
  | nil => rfl
  | cons s ss ih =>
    rw [List.cons_append, Draft.takeAll, Draft.takeAll, Option.bind_assoc]
    congr 1
    funext d
    exact ih d

/-! ### Finished entries -/

theorem finishEntries_append (es fs : Entries) :
    finishEntries (es ++ fs) = finishEntries es ++ finishEntries fs := by
  induction es with
  | nil => rfl
  | cons e es ih => rw [List.cons_append, finishEntries, finishEntries, ih, List.cons_append]

theorem finishEntries_nodes (pairs : List (String × Value)) : finishEntries (nodes pairs) = pairs := by
  induction pairs with
  | nil => rfl
  | cons p pairs ih =>
    rw [nodes, List.map_cons, finishEntries, ← nodes, ih]
    rfl

theorem keys_finishEntries (es : Entries) : (finishEntries es).map (·.1) = es.map (·.1) := by
  induction es with
  | nil => rfl
  | cons e es ih => rw [finishEntries, List.map_cons, List.map_cons, ih]

/-! ### Sections -/

/-- Statements that add entries with new keys behind those of a draft, wherever they are taken. -/
def Adds (statements : List Statement) (pairs : List (String × Value)) : Prop :=
  ∀ d : Draft, (∀ p ∈ pairs, p.1 ∉ d.root.map (·.1)) → ∃ d', d.takeAll statements = some d' ∧
    finishEntries d'.root = finishEntries d.root ++ pairs

theorem adds_nil : Adds [] [] := fun d _ => ⟨d, rfl, by rw [List.append_nil]⟩

variable {pairs : List (String × Value)}

theorem Adds.append {ss ts : List Statement} {ps qs : List (String × Value)} (h : Adds ss ps)
    (h' : Adds ts qs) (hn : ((ps ++ qs).map (·.1)).Nodup) : Adds (ss ++ ts) (ps ++ qs) := by
  intro d hd
  obtain ⟨d', hs, hp⟩ := h d fun p hm => hd p (List.mem_append_left qs hm)
  have hfresh : ∀ q ∈ qs, q.1 ∉ d'.root.map (·.1) := by
    intro q hm
    rw [← keys_finishEntries, hp, List.map_append, keys_finishEntries, List.mem_append, not_or]
    rw [List.map_append, List.nodup_append] at hn
    exact ⟨hd q (List.mem_append_right ps hm), fun hp => hn.2.2 q.1 hp q.1 (List.mem_map_of_mem hm) rfl⟩
  obtain ⟨d'', ht, hq⟩ := h' d' hfresh
  refine ⟨d'', ?_, ?_⟩
  · rw [takeAll_append, hs, Option.bind_some, ht]
  · rw [hq, hp, List.append_assoc]

/-- The section of a table. -/
theorem adds_section (key : String) (hn : (pairs.map (·.1)).Nodup) :
    Adds (.header [] key :: assignments pairs) [(key, .table pairs)] := by
  intro d hd
  have hk : key ∉ d.root.map (·.1) := hd _ List.mem_cons_self
  have hopen : d.take (.header [] key) = some ⟨d.root ++ [(key, .table .opened [])], [key]⟩ := by
    rw [Draft.take, within, openTable, lookup_eq_none_of_notMem hk]
    rfl
  have hf : Frame [key] fun entries => d.root ++ [(key, .table .opened entries)] :=
    frame_root.append hk .opened
  refine ⟨⟨d.root ++ [(key, .table .opened (nodes pairs))], [key]⟩, ?_, ?_⟩
  · rw [Draft.takeAll, hopen, Option.bind_some, takeAll_assignments hf (by simpa using hn),
      List.nil_append]
  · rw [finishEntries_append]
    simp [finishEntries, Node.finish, finishEntries_nodes]

/-- The section of a table in a table that has no section of its own. -/
theorem adds_innerSection (outer key : String) (hn : (pairs.map (·.1)).Nodup) :
    Adds (.header [outer] key :: assignments pairs) [(outer, .table [(key, .table pairs)])] := by
  intro d hd
  have hk : outer ∉ d.root.map (·.1) := hd _ List.mem_cons_self
  have hopen : d.take (.header [outer] key) =
      some ⟨d.root ++ [(outer, .table .passed [(key, .table .opened [])])], [outer, key]⟩ := by
    rw [Draft.take, within, lookup_eq_none_of_notMem hk]
    rfl
  have hf : Frame [key] fun entries => [] ++ [(key, .table .opened entries)] :=
    frame_root.append List.not_mem_nil .opened
  refine ⟨⟨d.root ++ [(outer, .table .passed [(key, .table .opened (nodes pairs))])],
    [outer, key]⟩, ?_, ?_⟩
  · rw [Draft.takeAll, hopen, Option.bind_some]
    exact takeAll_assignments (hf.append hk .passed) (by simpa using hn)
  · rw [finishEntries_append]
    simp [finishEntries, Node.finish, finishEntries_nodes]

/-- The entries of a whole text: first those without a section, then those of the sections. -/
theorem takeAll_sections {statements : List Statement} {sections : List (String × Value)}
    (h : Adds statements sections) (hn : ((pairs ++ sections).map (·.1)).Nodup) :
    (Draft.takeAll (assignments pairs ++ statements) {}).map (fun d => finishEntries d.root) =
      some (pairs ++ sections) := by
  rw [List.map_append, List.nodup_append] at hn
  obtain ⟨hp, -, hd⟩ := hn
  have hassign : Draft.takeAll (assignments pairs) {} = some ⟨nodes pairs, []⟩ :=
    takeAll_assignments frame_root (by simpa using hp)
  obtain ⟨d, hs, he⟩ := h ⟨nodes pairs, []⟩ (by
    intro q hq hm
    rw [← keys_finishEntries, finishEntries_nodes] at hm
    exact hd q.1 hm q.1 (List.mem_map_of_mem hq) rfl)
  rw [takeAll_append, hassign, Option.bind_some, hs, Option.map_some, he, finishEntries_nodes]

end Immutability.Toml
