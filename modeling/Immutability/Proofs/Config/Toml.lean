import Immutability.Config.Toml
import Immutability.Proofs.Command.Check
import Immutability.Proofs.Keyed
import Immutability.Proofs.Reading.Record
import Immutability.Proofs.Toml.Document
import Immutability.Proofs.Toml.Table

/-! A configuration is read back from its text.

    Members and sections that are as usual may be left out of the text, each by itself, and rules may be
    reweighed in any order. Every such text is read as the same configuration. -/

namespace Immutability

open Toml

namespace Toml

variable {α : Type} {αs : List Type}

/-- A table that holds the members of a record in declared order is read as their values. -/
theorem Read.record_of_tells {members : Members Value αs} (hn : members.keys.Nodup)
    {pairs : List (String × Value)} {values : Values αs} (h : members.Tells pairs values)
    (name : String) : Read.record name members (.table pairs) = .ok values := by
  obtain ⟨filled, hp, hc⟩ := h.putAll_close hn fun _ => .ok ()
  simp only [Read.record, hp, hc]

/-- So is a section with one member. -/
theorem Read.section_of_tells {members : Members Value [α]} (hn : members.keys.Nodup)
    {pairs : List (String × Value)} {a : α} (h : members.Tells pairs (a, ())) (name : String) :
    (Read.record name members (.table pairs)).map (·.1) = .ok a := by
  rw [Read.record_of_tells hn h]
  rfl

theorem Read.list_text (texts : List String) :
    readAll Read.text (texts.map .text) = .ok texts := readAll_map fun _ _ => rfl

theorem Read.entries_plain (rules : List (String × Severity)) :
    Read.entries (Read.plain Config.severityNames) (rules.map fun r => (r.1, .text r.2.name)) =
      .ok rules := by
  refine readAll_map fun r _ => ?_
  obtain ⟨key, s⟩ := r
  cases s
  · rfl
  · rfl
  · rfl

end Toml

namespace Config

/-! ### Texts of a configuration -/

/-- The line of a member. -/
def memberLine (key : String) (value : List Char) : String :=
  key ++ " = " ++ String.ofList value ++ "\n"

/-- The lines of reweighed rules. -/
def ruleLines (rules : List (String × Severity)) : String :=
  String.join (rules.map fun r => overrideLine r ++ "\n")

/-- Empty lines. -/
def emptyLines (n : Nat) : String := String.ofList (List.replicate n '\n')

/-- A part of a text is there in full, or it is as usual and left out. -/
inductive Part (usual : Prop) (text : String) : String → Prop
  | full : Part usual text text
  | omitted (h : usual) : Part usual text ""

/-- The section of the severities: its rules in any order, or if there are none also without its
    member, or no section at all. -/
inductive SeverityText (table : Severities) : String → Prop
  | full {rules : List (String × Severity)} (h : rules.Perm table.entries) :
    SeverityText table ("[severity.overrides]\n" ++ ruleLines rules)
  | bare (h : table = default.severities) : SeverityText table "[severity]\n"
  | omitted (h : table = default.severities) : SeverityText table ""

/-- The section of the exemptions, with or without its member, or no section at all. -/
inductive AllowlistText (skipTypes : List String) : String → Prop
  | full {member : String} (h : Part (skipTypes = default.skipTypes)
      (memberLine "skip_types" (writeList skipTypes)) member) :
    AllowlistText skipTypes ("[allowlist]\n" ++ member)
  | omitted (h : skipTypes = default.skipTypes) : AllowlistText skipTypes ""

/-- The text tells the configuration: its members and sections stand there in their order, less any of
    them that are as usual. -/
inductive Tells (c : Config) : String → Prop
  | parts {flag known severity allowlist : String}
    (hflag : Part (c.useDefaultRegistry = default.useDefaultRegistry)
      (memberLine "use_default_registry" (if c.useDefaultRegistry then "true" else "false").toList)
      flag)
    (hknown : Part (c.knownImmutable = default.knownImmutable)
      (memberLine "known_immutable" (writeList c.knownImmutable)) known)
    (hseverity : SeverityText c.severities severity)
    (hallowlist : AllowlistText c.skipTypes allowlist) (gap gap' : Nat) :
    Tells c (flag ++ known ++ emptyLines gap ++ severity ++ emptyLines gap' ++ allowlist)

/-- The order of rules by their lines. -/
def ruleLe (r r' : String × Severity) : Bool := decide (overrideLine r ≤ overrideLine r')

theorem ruleLines_mergeSort (table : Severities) :
    String.join ((overrideLines table).map (· ++ "\n")) = ruleLines (table.entries.mergeSort ruleLe) := by
  have h : (table.entries.mergeSort ruleLe).map overrideLine = overrideLines table := by
    rw [overrideLines]
    exact List.map_mergeSort fun _ _ _ _ => rfl
  rw [← h, List.map_map]
  rfl

theorem toToml_eq (c : Config) : c.toToml =
    memberLine "use_default_registry" (if c.useDefaultRegistry then "true" else "false").toList ++
      memberLine "known_immutable" (writeList c.knownImmutable) ++ emptyLines 1 ++
      ("[severity.overrides]\n" ++ ruleLines (c.severities.entries.mergeSort ruleLe)) ++
      emptyLines 1 ++ ("[allowlist]\n" ++ memberLine "skip_types" (writeList c.skipTypes)) := by
  have hflag : "use_default_registry = " = "use_default_registry" ++ " = " := rfl
  have hknown : "known_immutable = " = "known_immutable" ++ " = " := rfl
  have hskip : "[allowlist]\nskip_types = " = "[allowlist]\n" ++ ("skip_types" ++ " = ") := rfl
  have hline : "\n\n" = "\n" ++ "\n" := rfl
  have hempty : emptyLines 1 = "\n" := rfl
  unfold toToml memberLine
  rw [ruleLines_mergeSort, hempty]
  apply String.toList_injective
  rw [hflag, hknown, hskip, hline]
  simp only [String.toList_append, List.append_assoc, String.ofList_toList]

/-- The text that is written tells the configuration. -/
theorem tells_toToml (c : Config) : c.Tells c.toToml := by
  rw [toToml_eq]
  exact .parts .full .full (.full (List.mergeSort_perm _ _)) (.full .full) 1 1

/-! ### Members -/

theorem notes_writeList (texts : List String) :
    Notes (writeList texts) (.sequence (texts.map .text) false) := by
  match texts with
  | [] => exact notes_nil
  | [s] => exact notes_singleton s
  | s :: s' :: texts => exact notes_writeRows (s :: s' :: texts)

variable {α : Type}

/-- A member tells its value by its line, or by having none. -/
theorem Part.exists_pairs {usual : Prop} {value : List Char} {v : Value} {a : α} {part : String}
    (member : Member Value α) (h : Part usual (memberLine member.key value) part)
    (hk : writeKey member.key.toList = member.key.toList) (hv : Notes value v)
    (hr : member.read v = .ok a) (hu : usual → member.omitted = some a) :
    ∃ pairs, Lines part.toList (assignments pairs) ∧ member.Tells pairs a := by
  cases h with
  | full =>
    refine ⟨[(member.key, v)], ?_, Or.inl ⟨v, rfl, hr⟩⟩
    have hline : (memberLine member.key value).toList = writeLine member.key value ++ ['\n'] := by
      simp [memberLine, writeLine, hk]
    rw [hline]
    exact lines_writeLine member.key hv
  | omitted h => exact ⟨[], lines_nil, Or.inr ⟨rfl, hu h⟩⟩

/-! ### Sections -/

/-- The member of a configuration that holds the severities. -/
def severityMember : Member Value Severities :=
  .defaulted "severity" (fun v => (Read.record "SeverityThreshold" severityMembers v).map (·.1)) .empty

/-- The member of a configuration that holds the exemptions. -/
def allowlistMember : Member Value (List String) :=
  .defaulted "allowlist" (fun v => (Read.record "AllowlistRules" allowlistMembers v).map (·.1)) []

/-- The entries of reweighed rules. -/
def rulePairs (rules : List (String × Severity)) : List (String × Value) :=
  rules.map fun r => (r.1, .text r.2.name)

theorem lines_ruleLines (rules : List (String × Severity)) :
    Lines (ruleLines rules).toList (assignments (rulePairs rules)) := by
  induction rules with
  | nil => exact lines_nil
  | cons r rules ih =>
    have hline : (overrideLine r ++ "\n").toList =
        writeLine r.1 (writeText r.2.name.toList) ++ ['\n'] := by
      simp [overrideLine, writeLine]
    have hrules : (ruleLines (r :: rules)).toList =
        (writeLine r.1 (writeText r.2.name.toList) ++ ['\n']) ++ (ruleLines rules).toList := by
      rw [← hline]
      simp [ruleLines, String.toList_join]
    rw [hrules]
    exact (lines_writeLine r.1 (notes_writeText r.2.name)).append ih

theorem tells_overrides {table : Severities} {rules : List (String × Severity)}
    (h : rules.Perm table.entries) :
    severityMembers.Tells [("overrides", .table (rulePairs rules))] (table, ()) := by
  refine ⟨_, [], rfl, Or.inl ⟨_, rfl, ?_⟩, rfl⟩
  have he : Read.entries (Read.plain severityNames) (rulePairs rules) = .ok rules :=
    Read.entries_plain rules
  have hk : Read.keyed severityNames (.table (rulePairs rules)) = .ok table := by
    rw [Read.keyed, he, ← Keyed.ofList_of_perm h]
    rfl
  exact hk

theorem SeverityText.exists_pairs {table : Severities} {text : String} (h : SeverityText table text) :
    ∃ statements pairs, Lines text.toList statements ∧ Adds statements pairs ∧
      severityMember.Tells pairs table := by
  cases h with
  | @full rules h =>
    have hn : ((rulePairs rules).map (·.1)).Nodup := by
      have hkeys : (rulePairs rules).map (·.1) = rules.map (·.1) := by simp [rulePairs]
      rw [hkeys]
      exact (h.map Prod.fst).nodup_iff.2 table.keys_nodup
    have hheader : Lines (writeHeader (["severity"] ++ ["overrides"]) ++ ['\n'])
        [.header ["severity"] "overrides"] := lines_writeHeader (by decide) "overrides"
    have hlines : Lines ("[severity.overrides]\n" ++ ruleLines rules).toList
        (.header ["severity"] "overrides" :: assignments (rulePairs rules)) := by
      rw [String.toList_append]
      exact hheader.append (lines_ruleLines rules)
    have hread := Read.section_of_tells (by decide) (tells_overrides h) "SeverityThreshold"
    exact ⟨_, _, hlines, adds_innerSection "severity" "overrides" hn, Or.inl ⟨_, rfl, hread⟩⟩
  | bare h =>
    have hlines : Lines (writeHeader ([] ++ ["severity"]) ++ ['\n']) [.header [] "severity"] :=
      lines_writeHeader (by decide) "severity"
    have hadds : Adds [.header [] "severity"] [("severity", .table [])] :=
      adds_section "severity" List.nodup_nil
    have htells : severityMembers.Tells [] (table, ()) :=
      ⟨[], [], rfl, Or.inr ⟨rfl, h ▸ rfl⟩, rfl⟩
    have hread := Read.section_of_tells (by decide) htells "SeverityThreshold"
    exact ⟨_, _, hlines, hadds, Or.inl ⟨_, rfl, hread⟩⟩
  | omitted h => exact ⟨[], [], lines_nil, adds_nil, Or.inr ⟨rfl, h ▸ rfl⟩⟩

theorem AllowlistText.exists_pairs {skipTypes : List String} {text : String}
    (h : AllowlistText skipTypes text) :
    ∃ statements pairs, Lines text.toList statements ∧ Adds statements pairs ∧
      allowlistMember.Tells pairs skipTypes := by
  cases h with
  | @full member h =>
    obtain ⟨pairs, hmember, ht⟩ := h.exists_pairs
      (.defaulted "skip_types" (Read.list Read.text) []) (by decide)
      (notes_writeList skipTypes) (Read.list_text skipTypes) fun h => h ▸ rfl
    have htells : allowlistMembers.Tells pairs (skipTypes, ()) :=
      ⟨pairs, [], (List.append_nil pairs).symm, ht, rfl⟩
    have hread := Read.section_of_tells (by decide) htells "AllowlistRules"
    have hheader : Lines (writeHeader ([] ++ ["allowlist"]) ++ ['\n']) [.header [] "allowlist"] :=
      lines_writeHeader (by decide) "allowlist"
    have hlines : Lines ("[allowlist]\n" ++ member).toList
        (.header [] "allowlist" :: assignments pairs) := by
      rw [String.toList_append]
      exact hheader.append hmember
    have hn := htells.keys_sublist.nodup (by decide)
    exact ⟨_, _, hlines, adds_section "allowlist" hn, Or.inl ⟨_, rfl, hread⟩⟩
  | omitted h => exact ⟨[], [], lines_nil, adds_nil, Or.inr ⟨rfl, h ▸ rfl⟩⟩

/-! ### Configurations -/

/-- Every text that tells a configuration is read as it. -/
theorem Tells.ofToml {c : Config} {text : String} (h : c.Tells text) : ofToml text = .ok c := by
  cases h with
  | @parts flag known severity allowlist hflag hknown hseverity hallowlist gap gap' =>
    obtain ⟨p₁, h₁, t₁⟩ := hflag.exists_pairs
      (.defaulted "use_default_registry" Read.boolean true) (by decide)
      (notes_boolean c.useDefaultRegistry) rfl fun h => h ▸ rfl
    obtain ⟨p₂, h₂, t₂⟩ := hknown.exists_pairs
      (.defaulted "known_immutable" (Read.list Read.text) []) (by decide)
      (notes_writeList c.knownImmutable) (Read.list_text c.knownImmutable) fun h => h ▸ rfl
    obtain ⟨s₃, p₃, h₃, a₃, t₃⟩ := hseverity.exists_pairs
    obtain ⟨s₄, p₄, h₄, a₄, t₄⟩ := hallowlist.exists_pairs
    have htells : members.Tells (p₁ ++ (p₂ ++ (p₃ ++ p₄)))
        (c.useDefaultRegistry, c.knownImmutable, c.severities, c.skipTypes, ()) :=
      ⟨p₁, _, rfl, t₁, p₂, _, rfl, t₂, p₃, p₄, rfl, t₃, p₄, [], (List.append_nil p₄).symm, t₄, rfl⟩
    have hn := htells.keys_sublist.nodup (by decide)
    rw [← List.append_assoc] at hn
    have hsections := a₃.append a₄ (hn.sublist ((List.sublist_append_right _ _).map _))
    have hlines : Lines (flag ++ known ++ emptyLines gap ++ severity ++ emptyLines gap' ++
        allowlist).toList (assignments (p₁ ++ p₂) ++ (s₃ ++ s₄)) := by
      have h := ((((h₁.append h₂).append (lines_newlines gap)).append h₃).append
        (lines_newlines gap')).append h₄
      simpa [assignments, emptyLines] using h
    have hread : Toml.read (flag ++ known ++ emptyLines gap ++ severity ++ emptyLines gap' ++
        allowlist) = some (p₁ ++ (p₂ ++ (p₃ ++ p₄))) := by
      rw [hlines.read, takeAll_sections hsections hn, List.append_assoc]
    rw [Config.ofToml, hread]
    simp only [Read.record_of_tells (by decide) htells]
    rfl

example : Config.ofToml "" = .ok .default := by decide +kernel

theorem save_tree_eq (c : Config) (tree : FileTree) (path : String) :
    (c.save path : StateM FileTree _) tree =
      match tree.write path c.toToml with
      | .ok tree' => (.ok (), tree')
      | .error e => (.error (.unreadable e), tree) := by
  rw [save, bind_state (write_tree_eq tree path c.toToml)]
  cases tree.write path c.toToml <;> rfl

/-- A configuration is read back from its text, and from its text without any of those members and
    sections that are as usual. So it is the configuration of the file in which it has been saved. -/
theorem run_save (c : Config) :
    c.Tells c.toToml ∧ (∀ text, c.Tells text → Config.ofToml text = .ok c) ∧
      ∀ (tree tree' : FileTree) (path : String),
        (c.save path : StateM FileTree _) tree = (.ok (), tree') →
          tree'.read path = .ok c.toToml ∧
          (Config.ofFile path : StateM FileTree _) tree' = (.ok c, tree') := by
  refine ⟨c.tells_toToml, fun text h => h.ofToml, ?_⟩
  intro tree tree' path h
  rw [save_tree_eq] at h
  cases hw : tree.write path c.toToml with
  | error e =>
    rw [hw] at h
    cases h
  | ok saved =>
    rw [hw] at h
    cases h
    have hr := FileTree.read_of_write hw
    refine ⟨hr, ?_⟩
    rw [ofFile_tree, FileTree.configAt, hr]
    simp only [Config.ofText, c.tells_toToml.ofToml]

/-- A configuration with quotes of both kinds, several lines, and keys that need quotes. -/
def quoting : Config where
  knownImmutable := ["\"it\x27s\" \\\n", ""]
  severities := .ofList [("a\nb", .warn), ("", .note)]

/-- Its text without what is as usual. -/
def quotingText : String :=
  "known_immutable = [\n    \x27\x27\x27\n\"it\x27s\" \\\n\x27\x27\x27,\n    \"\",\n]\n\n" ++
    "[severity.overrides]\n\"a\\nb\" = \"warn\"\n\"\" = \"note\"\n"

theorem run_save_quoting : quoting.Tells quotingText ∧ Config.ofToml quotingText = .ok quoting ∧
    ∃ tree, (quoting.save "c.toml" : StateM FileTree _) .empty = (.ok (), tree) ∧
      (Config.ofFile "c.toml" : StateM FileTree _) tree = (.ok quoting, tree) := by
  have htext : quotingText = "" ++ memberLine "known_immutable" (writeList quoting.knownImmutable) ++
      emptyLines 1 ++ ("[severity.overrides]\n" ++ ruleLines [("a\nb", .warn), ("", .note)]) ++
      emptyLines 0 ++ "" := by
    decide +kernel
  have hseverity : SeverityText quoting.severities
      ("[severity.overrides]\n" ++ ruleLines [("a\nb", .warn), ("", .note)]) := .full (by decide)
  have hallowlist : AllowlistText quoting.skipTypes "" := .omitted rfl
  have htells : quoting.Tells quotingText := by
    rw [htext]
    exact Tells.parts (c := quoting) (.omitted rfl) .full hseverity hallowlist 1 0
  have hdenotes : FileTree.empty.Denotes "c.toml" ["c.toml"] :=
    FileTree.denotes_name (by decide) rfl (Option.some_ne_none _).symm
  obtain ⟨tree, hw⟩ := hdenotes.write quoting.toToml
  have hsave : (quoting.save "c.toml" : StateM FileTree _) .empty = (.ok (), tree) := by
    rw [save_tree_eq, hw]
  exact ⟨htells, (run_save quoting).2.1 _ htells, tree, hsave,
    ((run_save quoting).2.2 _ _ _ hsave).2⟩

end Config

end Immutability
