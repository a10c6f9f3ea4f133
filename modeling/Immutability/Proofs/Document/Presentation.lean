import Immutability.Proofs.Document.Json
import Immutability.Proofs.Graph.Insertion
import Immutability.Proofs.Json.Form

/-! The texts of a list of declarations.

    A front end is free in how it spells a document: in white space, in the order of keys, in keys of
    its own, in the order and repetition of modifiers, in members that have their defaults, in the
    owners of fields and in metadata. All texts of the same declarations are read as documents of
    the same declarations, up to the owners of their fields. -/

namespace Immutability

open Json

/-! ### Forms -/

/-- A line number. -/
def Json.lineForm : Form UInt64 := fun t line => t = .numeral (.ofInt line.toNat)

/-- A kind. -/
def ElementKind.form : Form ElementKind := .named ElementKind.name

/-- A set of modifiers: their keywords in any order, each as often as one likes. -/
def Modifiers.form : Form Modifiers := .map .ofList (.list (.named Modifier.name))

/-- A type reference: a table with exactly one key. -/
def TypeRef.form : Form TypeRef
  | t, .primitive s => t = .table [(some "primitive", .text s)] true
  | t, .named s => t = .table [(some "named", .text s)] true

/-- A field. -/
def FieldDeclaration.form : Form FieldDeclaration := .record fun pairs f =>
  Given "name" none .text pairs f.name ∧
  Given "type" none TypeRef.form pairs f.type ∧
  Given "modifiers" (some .empty) Modifiers.form pairs f.modifiers ∧
  Given "annotated_immutable" (some false) .boolean pairs f.marked ∧
  Given "owner" (some "") .text pairs f.owner ∧
  Given "line" (some none) (.option lineForm) pairs f.line

/-- A type. -/
def TypeDeclaration.form : Form TypeDeclaration := .record fun pairs t =>
  Given "name" none .text pairs t.name ∧
  Given "kind" none ElementKind.form pairs t.kind ∧
  Given "modifiers" (some .empty) Modifiers.form pairs t.modifiers ∧
  Given "fields" (some []) (.list FieldDeclaration.form) pairs t.fields ∧
  Given "annotated_immutable" (some false) .boolean pairs t.marked ∧
  Given "file" (some none) (.option .text) pairs t.file ∧
  Given "line" (some none) (.option lineForm) pairs t.line

/-- Metadata. -/
def Metadata.form : Form Metadata := .record fun pairs m =>
  Given "producer" (some none) (.option .text) pairs m.producer ∧
  Given "generated_at" (some none) (.option .text) pairs m.generatedAt

/-- A document. -/
def Document.form : Form Document := .record fun pairs d =>
  Given "metadata" (some {}) Metadata.form pairs d.metadata ∧
  Given "types" (some []) (.list TypeDeclaration.form) pairs d.types

/-- The same type, but for the owners of its fields: in `u` a field names this type or none. -/
structure TypeDeclaration.Reowned (t u : TypeDeclaration) : Prop where
  stamped_eq : u.stamped = t.stamped
  unclaimed : ∀ f ∈ u.fields, f.owner = "" ∨ f.owner = u.name

/-- The text is an object-form text of the declarations: it spells a document of them, in any layout
    and any form, with any metadata and with owners or without. -/
def Presents (s : String) (ts : List TypeDeclaration) : Prop :=
  ∃ (t : Tree) (d : Document), Written s t ∧ Document.form t d ∧
    List.Forall₂ TypeDeclaration.Reowned ts d.types

/-! ### Printed documents -/

theorem Modifiers.form_toJson (s : Modifiers) : Modifiers.form s.toJson.tree s :=
  ⟨s.toList, Form.list_tree fun _ _ => rfl, s.ofList_toList⟩

theorem TypeRef.form_toJson (r : TypeRef) : TypeRef.form r.toJson.tree r := by
  cases r <;> rfl

theorem FieldDeclaration.form_toJson (f : FieldDeclaration) :
    FieldDeclaration.form f.toJson.tree f := by
  have ht := f.type.form_toJson
  have hm := f.modifiers.form_toJson
  obtain ⟨name, type, modifiers, marked, owner, line⟩ := f
  refine Form.record_tree ?_
  cases line with
  | none =>
    exact ⟨.written rfl rfl, .written rfl ht, .written rfl hm, .written rfl rfl, .written rfl rfl,
      .omitted rfl rfl⟩
  | some line =>
    exact ⟨.written rfl rfl, .written rfl ht, .written rfl hm, .written rfl rfl, .written rfl rfl,
      .written rfl rfl⟩

theorem TypeDeclaration.form_toJson (t : TypeDeclaration) :
    TypeDeclaration.form t.toJson.tree t := by
  have hm := t.modifiers.form_toJson
  have hf : Form.list FieldDeclaration.form (Json.sequence (t.fields.map (·.toJson))).tree t.fields :=
    Form.list_tree fun f _ => f.form_toJson
  obtain ⟨name, kind, modifiers, fields, marked, file, line⟩ := t
  refine Form.record_tree ?_
  cases file <;> cases line <;>
    refine ⟨.written rfl rfl, .written rfl rfl, .written rfl hm, .written rfl hf, .written rfl rfl,
      ?_, ?_⟩ <;>
    first
    | exact .omitted rfl rfl
    | exact .written rfl rfl

theorem Json.form_ofText? (o : Option String) : Form.option .text (ofText? o).tree o := by
  cases o <;> rfl

theorem Metadata.form_toJson (m : Metadata) : Metadata.form m.toJson.tree m :=
  Form.record_tree ⟨.written rfl (form_ofText? m.producer), .written rfl (form_ofText? m.generatedAt)⟩

theorem Document.form_toJson (d : Document) : Document.form d.toJson.tree d :=
  Form.record_tree ⟨.written rfl d.metadata.form_toJson,
    .written rfl (Form.list_tree fun t _ => t.form_toJson)⟩

/-- A printed document is one of the texts of its declarations, in either layout. -/
theorem Document.presents_toJson (d : Document) (h : ∀ t ∈ d.types, t.Acceptable) :
    Presents d.toJson.compact d.types ∧ Presents d.toJson.indented d.types := by
  have hr : List.Forall₂ TypeDeclaration.Reowned d.types d.types :=
    List.forall₂_same.2 fun t ht => ⟨rfl, (h t ht).unclaimed⟩
  exact ⟨⟨d.toJson.tree, d, written_compact d.readAs.integral, d.form_toJson, hr⟩,
    d.toJson.tree, d, written_indented d.readAs.integral, d.form_toJson, hr⟩

/-! ### Readers -/

theorem Json.lineForm_takenBy : lineForm.TakenBy Read.line := by
  rintro _ line - rfl
  exact (readAs_ofLine line).read_tree

theorem ElementKind.form_takenBy : ElementKind.form.TakenBy ElementKind.ofTree :=
  .named (by rintro k; cases k <;> decide)

theorem Modifiers.form_takenBy : Modifiers.form.TakenBy Modifiers.ofTree :=
  (Form.TakenBy.named (by rintro m; cases m <;> decide)).list.map

theorem TypeRef.form_takenBy : TypeRef.form.TakenBy TypeRef.ofTree := by
  rintro t r - h
  cases r with
  | primitive s =>
    obtain rfl : t = _ := h
    rfl
  | named s =>
    obtain rfl : t = _ := h
    rfl

theorem Json.optionText_takenBy : (Form.option .text).TakenBy (Read.option Read.text) :=
  Form.TakenBy.text.option nofun

theorem Json.optionLine_takenBy : (Form.option lineForm).TakenBy (Read.option Read.line) :=
  lineForm_takenBy.option nofun

theorem FieldDeclaration.form_takenBy : FieldDeclaration.form.TakenBy FieldDeclaration.ofTree := by
  refine .record (by decide) ?_
  rintro pairs f hi ⟨hn, ht, hm, ha, ho, hl⟩
  exact ⟨(f.name, f.type, f.modifiers, f.marked, f.owner, f.line, ()),
    ⟨hn.settle .text hi, ht.settle TypeRef.form_takenBy hi, hm.settle Modifiers.form_takenBy hi,
      ha.settle .boolean hi, ho.settle .text hi, hl.settle optionLine_takenBy hi, trivial⟩, rfl⟩

theorem TypeDeclaration.form_takenBy : TypeDeclaration.form.TakenBy TypeDeclaration.ofTree := by
  refine .record (by decide) ?_
  rintro pairs t hi ⟨hn, hk, hm, hf, ha, hs, hl⟩
  exact ⟨(t.name, t.kind, t.modifiers, t.fields, t.marked, t.file, t.line, ()),
    ⟨hn.settle .text hi, hk.settle ElementKind.form_takenBy hi, hm.settle Modifiers.form_takenBy hi,
      hf.settle FieldDeclaration.form_takenBy.list hi, ha.settle .boolean hi,
      hs.settle optionText_takenBy hi, hl.settle optionLine_takenBy hi, trivial⟩, rfl⟩

theorem Metadata.form_takenBy : Metadata.form.TakenBy Metadata.ofTree := by
  refine .record (by decide) ?_
  rintro pairs m hi ⟨hp, hg⟩
  exact ⟨(m.producer, m.generatedAt, ()),
    ⟨hp.settle optionText_takenBy hi, hg.settle optionText_takenBy hi, trivial⟩, rfl⟩

theorem Document.form_takenBy : Document.form.TakenBy Document.ofTree := by
  refine .record (by decide) ?_
  rintro pairs d hi ⟨hm, ht⟩
  exact ⟨(d.metadata, d.types, ()),
    ⟨hm.settle Metadata.form_takenBy hi, ht.settle TypeDeclaration.form_takenBy.list hi, trivial⟩,
    rfl⟩

/-- Every text of declarations is read as a document of them. -/
theorem Presents.ofText {s : String} {ts : List TypeDeclaration} (h : Presents s ts) :
    ∃ d, Document.ofText s = .ok d ∧ List.Forall₂ TypeDeclaration.Reowned ts d.types := by
  obtain ⟨t, d, hw, hf, hr⟩ := h
  refine ⟨d, ?_, hr⟩
  rw [Document.ofText, hw.ofText_eq, Source.read, Document.form_takenBy t d hw.intact hf]
  rfl

end Immutability
