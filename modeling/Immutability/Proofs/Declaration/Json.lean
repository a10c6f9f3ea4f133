import Immutability.Declaration.Json
import Immutability.Proofs.Json.Reading

/-! Declarations read as they were written.

    Every declaration comes back from its JSON, whatever its texts, modifiers and place are. So two
    declarations with the same text are the same. -/

namespace Immutability

open Json

/-! ### Kinds, modifiers and type references -/

/-- A variant without content is read from its name. -/
theorem Json.ReadAs.plain {α : Type} {known : List (String × α)} {name : String} {a : α}
    (h : known.lookup name = some a) : (Json.text name).ReadAs (Read.plain known) a := by
  refine ⟨rfl, ?_⟩
  simp only [tree, Read.plain, Read.variant, variantOf, h]
  rfl

theorem ElementKind.readAs (k : ElementKind) : k.toJson.ReadAs ElementKind.ofTree k :=
  .plain (by cases k <;> decide)

theorem Modifier.readAs (m : Modifier) : m.toJson.ReadAs Modifier.ofTree m :=
  .plain (by cases m <;> decide)

/-- Modifiers are listed in canonical order and collected into the same set. -/
theorem Modifiers.readAs (s : Modifiers) : s.toJson.ReadAs Modifiers.ofTree s := by
  have hl : s.toJson.ReadAs (fun t => (Read.list Modifier.ofTree t).map ofList) (ofList s.toList) :=
    (ReadAs.list fun m _ => m.readAs).map
  rwa [ofList_toList] at hl

theorem TypeRef.readAs (r : TypeRef) : r.toJson.ReadAs TypeRef.ofTree r := by
  cases r with
  | primitive s => exact ⟨rfl, rfl⟩
  | named s => exact ⟨rfl, rfl⟩

/-- Every line number of 64 bits is read exactly. -/
theorem Json.readAs_ofLine (line : UInt64) : (ofLine line).ReadAs Read.line line := by
  have hn : (ofLine line).ReadAs (fun t => (Read.count t).map UInt64.ofNat) (.ofNat line.toNat) :=
    (ReadAs.natural line.toNat_lt_size (Nat.le_refl _) "usize").map
  rwa [UInt64.ofNat_toNat] at hn

/-! ### Fields and types -/

/-- A text that may be absent is read as present or absent. -/
theorem Json.readAs_ofText? (o : Option String) : (ofText? o).ReadAs (Read.option Read.text) o := by
  cases o with
  | none => exact .absent
  | some s => exact (ReadAs.text s).present nofun

/-- A member that is written only if its value is present is read as present or absent. -/
theorem Json.Writes.optional {α : Type} {αs : List Type} {key : String}
    {read : Tree → Except Fault α} {others : Members Tree αs} {write : α → Json} {o : Option α}
    {pairs : List (String × Json)} {values : Values αs}
    (h : ∀ a, (write a).ReadAs (Read.option read) (some a)) (hs : Writes others pairs values) :
    Writes (.also (.defaulted key (Read.option read) none) others)
      (member? key write o ++ pairs) (o, values) := by
  cases o with
  | none => exact .omitted rfl hs
  | some a => exact .also (h a) hs

/-- A record ends with the line of a declaration, if that is known. -/
theorem Json.writes_line (line : Option UInt64) :
    Writes (.also (.defaulted "line" (Read.option Read.line) none) .none)
      (member? "line" ofLine line) (line, ()) := by
  rw [← List.append_nil (member? "line" ofLine line)]
  exact .optional (fun n => (readAs_ofLine n).present nofun) .done

theorem FieldDeclaration.readAs (f : FieldDeclaration) :
    f.toJson.ReadAs FieldDeclaration.ofTree f := by
  have hw : Writes FieldDeclaration.members
      ([("name", .text f.name), ("type", f.type.toJson), ("modifiers", f.modifiers.toJson),
        ("annotated_immutable", .boolean f.marked), ("owner", .text f.owner)]
        ++ member? "line" ofLine f.line)
      (f.name, f.type, f.modifiers, f.marked, f.owner, f.line, ()) :=
    .also (.text f.name) <| .also f.type.readAs <| .also f.modifiers.readAs <|
      .also (.boolean f.marked) <| .also (.text f.owner) (writes_line f.line)
  exact (hw.readAs (by decide) "FieldDeclaration").map

theorem TypeDeclaration.readAs (t : TypeDeclaration) :
    t.toJson.ReadAs TypeDeclaration.ofTree t := by
  have hf : Writes (.also (.defaulted "file" (Read.option Read.text) none) <|
      .also (.defaulted "line" (Read.option Read.line) none) .none)
      (member? "file" .text t.file ++ member? "line" ofLine t.line) (t.file, t.line, ()) :=
    .optional (fun file => (ReadAs.text file).present nofun) (writes_line t.line)
  have hw : Writes TypeDeclaration.members
      ([("name", .text t.name), ("kind", t.kind.toJson), ("modifiers", t.modifiers.toJson),
        ("fields", .sequence (t.fields.map FieldDeclaration.toJson)),
        ("annotated_immutable", .boolean t.marked)]
        ++ (member? "file" .text t.file ++ member? "line" ofLine t.line))
      (t.name, t.kind, t.modifiers, t.fields, t.marked, t.file, t.line, ()) :=
    .also (.text t.name) <| .also t.kind.readAs <| .also t.modifiers.readAs <|
      .also (.list fun f _ => f.readAs) <| .also (.boolean t.marked) hf
  rw [← List.append_assoc] at hw
  exact (hw.readAs (by decide) "TypeDeclaration").map

end Immutability
