/-
  FlowCheck.Proofs.Documents — programs survive their JSON form.

  The forms of all parts of a program are lawful, so reading back what was written of it gives the
  program (`LawfulForm Program`), also from text. A routine body is written as its draft and checked
  again when it is read. Where another draft stands in its place, and that draft has a defect, the
  defect is what the whole document is refused for: no other part of it is at fault.
-/

import FlowCheck.Proofs.Forms
import FlowCheck.Run

namespace FlowCheck

open Json

/-! ## Graphs -/

instance : LawfulForm Location :=
  .intro (fun l => .record (by simp)) fun l proper => readRecord_members (by rfl) (by decide) proper (by simp)

instance : LawfulForm NodeId where
  proper n := proper n.number
  ofJson_toJson n := congrArg (NodeId.mk <$> ·) (ofJson_toJson n.number)

instance : SolidForm NodeId := ⟨fun n => SolidForm.ne_null n.number⟩

instance : LawfulForm BlockId where
  proper b := proper b.number
  ofJson_toJson b := congrArg (BlockId.mk <$> ·) (ofJson_toJson b.number)

theorem tagged_proper {α : Type} [Form α] [LawfulForm α] (name : String) (a : α) : (tagged name a).Proper :=
  .record (by simp)

/-- The null literal is written as a word. -/
instance : SolidForm Literal := ⟨fun v h => by cases v <;> cases h⟩

instance : LawfulForm Literal where
  proper
    | .int v => tagged_proper "int" v
    | .text s => tagged_proper "text" s
    | .bool b => tagged_proper "bool" b
    | .null => .string "null"
  ofJson_toJson
    | .int v => readChoice_record rfl (proper v) holding_toJson
    | .text s => readChoice_record rfl (proper s) holding_toJson
    | .bool b => readChoice_record rfl (proper b) holding_toJson
    | .null => readChoice_string (by rfl) rfl

theorem field_proper (owner name : String) :
    (Json.record [("owner", toJson owner), ("name", toJson name)]).Proper :=
  .record (by simp)

instance : LawfulForm Place where
  proper
    | .local name => tagged_proper "local" name
    | .field owner name => .record (List.forall_mem_singleton.mpr (field_proper owner name))
    | .expr text => tagged_proper "expr" text
  ofJson_toJson
    | .local name => readChoice_record rfl (proper name) holding_toJson
    | .field owner name => by
      refine readChoice_record rfl (field_proper owner name) ?_
      exact holdingRecord_members (by rfl) (by decide) (field_proper owner name) (by simp)
    | .expr text => readChoice_record rfl (proper text) holding_toJson

instance : LawfulForm BinaryOp where
  proper op := .string op.name
  ofJson_toJson op := readName_name (by decide) (by cases op <;> decide)

instance : LawfulForm UnaryOp where
  proper op := .string op.name
  ofJson_toJson op := readName_name (by decide) (by cases op <;> decide)

theorem Operation.content_proper (op : Operation) : op.content.Proper := by
  cases op with
  | literal v => exact proper v
  | read p => exact proper p
  | _ => exact .record (by simp)

instance : LawfulForm Operation where
  proper op := .record (List.forall_mem_singleton.mpr op.content_proper)
  ofJson_toJson op := by
    have content := op.content_proper
    cases op with
    | literal v => exact readChoice_record rfl content holding_toJson
    | read p => exact readChoice_record rfl content holding_toJson
    | _ =>
      refine readChoice_record rfl content ?_
      exact holdingRecord_members (by rfl) (by decide) content (by simp)

instance : LawfulForm Node :=
  .intro (fun n => .record (by simp)) fun n proper => readRecord_members (by rfl) (by decide) proper (by simp)

instance : LawfulForm BlockRole where
  proper r := .string r.name
  ofJson_toJson r := readName_name (by decide) (by cases r <;> decide)

instance : LawfulForm Block :=
  .intro (fun b => .record (by simp)) fun b proper => readRecord_members (by rfl) (by decide) proper (by simp)

instance : LawfulForm EdgeKind where
  proper k := .string k.name
  ofJson_toJson k := readName_name (by decide) (by cases k <;> decide)

instance : LawfulForm Edge :=
  .intro (fun e => .record (by simp)) fun e proper => readRecord_members (by rfl) (by decide) proper (by simp)

instance : LawfulForm Draft :=
  .intro (fun d => .record (by simp)) fun d proper => readRecord_members (by rfl) (by decide) proper (by simp)

/-- A draft that is read as a graph is checked. -/
theorem ofJson_draft (d : Draft) :
    (ofJson (toJson d) : Except Fault Flowgraph) =
      match Flowgraph.ofDraft d with
      | .ok g => .ok g
      | .error e => .error (.refused e.message) := by
  show (ofJson (toJson d) >>= _ : Except Fault Flowgraph) = _
  rw [ofJson_toJson]
  show (match Flowgraph.ofDraft d with | .ok g => pure g | .error e => throw _) = _
  cases Flowgraph.ofDraft d <;> rfl

instance : LawfulForm Flowgraph where
  proper g := proper g.toDraft
  ofJson_toJson g := (ofJson_draft g.toDraft).trans (by rw [Flowgraph.ofDraft_eq_ok_iff.mpr rfl])

instance : SolidForm Flowgraph := ⟨fun _ h => nomatch h⟩

/-! ## Programs -/

instance : LawfulForm ValueType where
  proper t := by
    cases t with
    | reference name => exact tagged_proper "reference" name
    | _ => exact .string _
  ofJson_toJson t := by
    cases t with
    | reference name => exact readChoice_record rfl (proper name) holding_toJson
    | _ => exact readChoice_string (by rfl) rfl

instance : LawfulForm Purity.Label where
  proper l := .string l.name
  ofJson_toJson l := readName_name (by decide) (by cases l <;> decide)

instance : SolidForm Purity.Label := ⟨fun _ h => nomatch h⟩

instance : LawfulForm Pattern where
  proper p := .string p.name
  ofJson_toJson p := readName_name (by decide) (by cases p <;> decide)

instance : LawfulForm Modifiers :=
  .intro (fun m => .record (by simp)) fun m proper => readRecord_members (by rfl) (by decide) proper (by simp)

instance : LawfulForm Field :=
  .intro (fun f => .record (by simp)) fun f proper => readRecord_members (by rfl) (by decide) proper (by simp)

instance : LawfulForm Parameter :=
  .intro (fun p => .record (by simp)) fun p proper => readRecord_members (by rfl) (by decide) proper (by simp)

instance : LawfulForm Routine :=
  .intro (fun r => .record (by simp)) fun r proper => readRecord_members (by rfl) (by decide) proper (by simp)

instance : LawfulForm Declaration :=
  .intro (fun d => .record (by simp)) fun d proper => readRecord_members (by rfl) (by decide) proper (by simp)

instance : LawfulForm Program :=
  .intro (fun p => .record (by simp)) fun p proper => readRecord_members (by rfl) (by decide) proper (by simp)

/-! ## Another body -/

def Program.withBody (p : Program) (i j : Nat) (g : Flowgraph) : Program :=
  { declarations := p.declarations.modify i fun d =>
      { d with routines := d.routines.modify j fun r => { r with body := some g } } }

def bodyPath (i j : Nat) : List Step :=
  [.member "declarations", .item i, .member "routines", .item j, .member "body"]

section

variable {part : Json} (whole : part.Proper) {β : Type} {read : Except Fault β}

include whole

theorem ofJson_routine {f : Option Flowgraph → β → Option Flowgraph} {path : List Step} {r : Routine}
    (h : ofJson ((toJson r.body).replaceAt path part) = f r.body <$> read) :
    ofJson ((toJson r).replaceAt (.member "body" :: path) part) =
      (fun b => { r with body := f r.body b }) <$> read := by
  have proper := whole.replaceAt (proper r) (.member "body" :: path)
  refine readRecord_members (by rfl) (by decide) proper ?_
  cases read with
  | ok b => simp [Members.optional_value h]
  | error e => simp [Members.optional_fault h]

theorem ofJson_declaration {f : Routine → β → Routine} {path : List Step} {d : Declaration} {j : Nat}
    {r : Routine} (hr : d.routines[j]? = some r) (h : ofJson ((toJson r).replaceAt path part) = f r <$> read) :
    ofJson ((toJson d).replaceAt (.member "routines" :: .item j :: path) part) =
      (fun b => { d with routines := d.routines.modify j (f · b) }) <$> read := by
  have proper := whole.replaceAt (proper d) (.member "routines" :: .item j :: path)
  have routines := ofJson_item (f := f) h hr
  refine readRecord_members (by rfl) (by decide) proper ?_
  cases read with
  | ok b => simp [Members.optional_value routines]
  | error e => simp [Members.optional_fault routines]

theorem ofJson_program {f : Declaration → β → Declaration} {path : List Step} {p : Program} {i : Nat}
    {d : Declaration} (hd : p.declarations[i]? = some d)
    (h : ofJson ((toJson d).replaceAt path part) = f d <$> read) :
    ofJson ((toJson p).replaceAt (.member "declarations" :: .item i :: path) part) =
      (fun b => { declarations := p.declarations.modify i (f · b) : Program }) <$> read := by
  have proper := whole.replaceAt (proper p) (.member "declarations" :: .item i :: path)
  have declarations := ofJson_item (f := f) h hd
  refine readRecord_members (by rfl) (by decide) proper ?_
  cases read with
  | ok b => simp [Members.optional_value declarations]
  | error e => simp [Members.optional_fault declarations]

end

/-- A document with another draft for a body is read as the program with that body, once the draft is
found to be a graph. -/
theorem ofJson_withBody {p : Program} {i j : Nat} {declaration : Declaration} {r : Routine}
    (hd : p.declarations[i]? = some declaration) (hr : declaration.routines[j]? = some r) (d : Draft) :
    ofJson ((toJson p).replaceAt (bodyPath i j) (toJson d)) = p.withBody i j <$> ofJson (toJson d) := by
  -- a draft is written as a record, so it is never taken for an absent body
  have body : ofJson ((toJson r.body).replaceAt [] (toJson d)) =
      some <$> (ofJson (toJson d) : Except Fault Flowgraph) :=
    ofJson_some fun h => nomatch h
  have routine := ofJson_routine (proper d) (f := fun _ g => some g) body
  have declared := ofJson_declaration (proper d) (f := fun r g => { r with body := some g }) hr routine
  exact ofJson_program (proper d) hd declared

/-! ## Text -/

theorem ofText_of_document {text : String} {j : Json} (h : Document.ofText text = ⟨j, true⟩) :
    Program.ofText text = (ofJson j).mapError .badProgram := by
  rw [Program.ofText, readText, h]
  cases (ofJson j : Except Fault Program) <;> rfl

/-- A program is what is read of its document, printed in any layout. With another draft for the body
of a routine the document is read as the program with that body, or, if the draft is no graph,
refused with the message of its defect. An initializer that is the null literal is not written as
an absent one is. -/
theorem document_exact (p : Program) :
    ofJson (toJson p) = .ok p ∧
      (∀ depth, Document.ofText (render depth (toJson p)) = ⟨toJson p, true⟩) ∧
      (∀ text, Document.ofText text = ⟨toJson p, true⟩ → Program.ofText text = .ok p) ∧
      (∀ f : Field, toJson { f with initializer := some .null } ≠ toJson { f with initializer := none }) ∧
      ∀ i j declaration r d, p.declarations[i]? = some declaration → declaration.routines[j]? = some r →
        let document := (toJson p).replaceAt (bodyPath i j) (toJson d)
        (∀ depth, Document.ofText (render depth document) = ⟨document, true⟩) ∧
          ∀ text, Document.ofText text = ⟨document, true⟩ →
            match Flowgraph.ofDraft d with
            | .ok g => Program.ofText text = .ok (p.withBody i j g)
            | .error e => ∃ fault, Program.ofText text = .error (.badProgram fault) ∧
                (RunError.badProgram fault).message? = some ("JSON error: " ++ e.message) := by
  refine ⟨ofJson_toJson p, ofText_render (proper p), fun text h => ?_, fun f same => ?_,
    fun i j declaration r d hd hr => ?_⟩
  · rw [ofText_of_document h, ofJson_toJson]
    rfl
  · have read := congrArg (ofJson (α := Field)) same
    rw [ofJson_toJson, ofJson_toJson] at read
    cases read
  · intro document
    refine ⟨ofText_render ((proper d).replaceAt (proper p) _), fun text h => ?_⟩
    have read := ofText_of_document h
    rw [ofJson_withBody hd hr, ofJson_draft] at read
    cases hg : Flowgraph.ofDraft d with
    | ok g =>
      rw [hg] at read
      exact read
    | error e =>
      rw [hg] at read
      exact ⟨_, read, rfl⟩

/-- A field initialized with the null literal, and a routine with an empty block for a body. -/
def nullField : Program :=
  let body : Flowgraph := { blocks := #[{ id := ⟨0⟩, role := .entry }], checked := by decide }
  { declarations := [
      { name := "Registry"
        fields := [{ name := "NONE", type := .reference "Registry", initializer := some .null }]
        routines := [{ name := "size", body := some body }] }] }

theorem document_exact_nullField :
    Program.ofText (compact (toJson nullField)) = .ok nullField ∧
      let document := (toJson nullField).replaceAt (bodyPath 0 0) (toJson ({} : Draft))
      ∃ fault, Program.ofText (compact document) = .error (.badProgram fault) ∧
        (RunError.badProgram fault).message? = some "JSON error: graph has no blocks" := by
  obtain ⟨-, printed, read, -, replaced⟩ := document_exact nullField
  obtain ⟨printed', read'⟩ := replaced 0 0 _ _ {} rfl rfl
  exact ⟨read _ (printed none), read' _ (printed' none)⟩

end FlowCheck
