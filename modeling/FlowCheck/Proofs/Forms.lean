/-
  FlowCheck.Proofs.Forms — reading a JSON form gives back what was written.

  `LawfulForm` is that law for one type. This file has it for simple values, lists and options, and
  the lemmas that give it for a record or a choice: a record whose members have its names in its own
  order is read field by field (`readRecord_members`), each from the first member that is left
  (`required_head`, `required_tail`). The same lemmas follow a single fault from the member it is in
  to the record.
-/

import FlowCheck.Json.Form
import FlowCheck.Proofs.Printing
import Mathlib.Data.List.Nodup

namespace FlowCheck.Json

/-- A type whose values are written in full, and read as what was written. -/
class LawfulForm (α : Type) [Form α] : Prop where
  proper (a : α) : (toJson a).Proper
  ofJson_toJson (a : α) : ofJson (toJson a) = .ok a

/-- A type none of whose values is written as absence is. -/
class SolidForm (α : Type) [Form α] : Prop where
  ne_null (a : α) : toJson a ≠ .null

export LawfulForm (proper ofJson_toJson)

attribute [simp] proper ofJson_toJson

variable {α β : Type}

/-- That a value is written in full helps to read it back. -/
theorem LawfulForm.intro [Form α] (proper : ∀ a : α, (toJson a).Proper)
    (back : ∀ a : α, (toJson a).Proper → ofJson (toJson a) = .ok a) : LawfulForm α :=
  ⟨proper, fun a => back a (proper a)⟩

/-! ## Simple values -/

instance : LawfulForm Bool := ⟨.bool, fun _ => rfl⟩

instance : LawfulForm String := ⟨.string, fun _ => rfl⟩

instance : SolidForm String := ⟨fun _ h => nomatch h⟩

instance : LawfulForm UInt32 where
  proper n := .number _
  ofJson_toJson n := (if_pos n.toNat_lt).trans (by rw [UInt32.ofNat_toNat]; rfl)

instance : SolidForm UInt32 := ⟨fun _ h => nomatch h⟩

instance : LawfulForm UInt64 where
  proper n := .number _
  ofJson_toJson n := (if_pos n.toNat_lt).trans (by rw [UInt64.ofNat_toNat]; rfl)

instance : LawfulForm Int64 where
  proper n := .number _
  ofJson_toJson n := (if_pos ⟨n.minValue_le_toInt, n.toInt_le⟩).trans (by rw [Int64.ofInt_toInt]; rfl)

theorem mapM_toJson [Form α] [LawfulForm α] (l : List α) :
    (l.map toJson).mapM ofJson = (.ok l : Except Fault (List α)) := by
  induction l with
  | nil => rfl
  | cons a l ih => rw [List.map_cons, List.mapM_cons, ofJson_toJson, ih]; rfl

instance [Form α] [LawfulForm α] : LawfulForm (List α) where
  proper l := .list (List.forall_mem_map.mpr fun a _ => proper a)
  ofJson_toJson l := by
    show ((l.map toJson).mapM ofJson >>= _ : Except Fault _) = _
    rw [mapM_toJson]
    rfl

instance [Form α] [LawfulForm α] : LawfulForm (Array α) where
  proper a := proper a.toList
  ofJson_toJson a := by
    show (ofJson (toJson a.toList) >>= _ : Except Fault _) = _
    rw [ofJson_toJson]
    rfl

theorem ofJson_some [Form α] {j : Json} (present : j ≠ .null) :
    (ofJson j : Except Fault (Option α)) = some <$> ofJson j := by
  cases j <;> first | rfl | exact absurd rfl present

instance [Form α] [LawfulForm α] [SolidForm α] : LawfulForm (Option α) where
  proper
    | some a => proper a
    | none => .null
  ofJson_toJson
    | some a => by
      show ofJson (toJson a) = _
      rw [ofJson_some (SolidForm.ne_null a), ofJson_toJson]
      rfl
    | none => rfl

/-! ## Choices -/

section

variable {alternatives : List (String × Alternative α)} {name : String} {f : Alternative α}
  (known : alternatives.lookup name = some f)

include known

theorem readChoice_string {r : Except Fault α} (h : f none = r) : readChoice alternatives (.string name) = r := by
  rw [readChoice, known]
  exact h

theorem readChoice_record {content : Json} (proper : content.Proper) {r : Except Fault α}
    (h : f (some content) = r) : readChoice alternatives (.record [(name, content)]) = r := by
  rw [readChoice]
  · simp only [known, h]
    cases r <;> rfl
  · rintro _ rfl
    cases proper

end

@[simp] theorem holding_toJson [Form β] [LawfulForm β] {f : β → α} {b : β} :
    holding f (some (toJson b)) = .ok (f b) := by
  rw [holding, ofJson_toJson]
  rfl

theorem lookup_name {all : List α} {name : α → String} (f : α → β) (distinct : (all.map name).Nodup) {a : α}
    (h : a ∈ all) : (all.map fun a => (name a, f a)).lookup (name a) = some (f a) := by
  induction all with
  | nil => cases h
  | cons b all ih =>
    rw [List.map_cons, List.nodup_cons] at distinct
    rw [List.map_cons, List.lookup_cons]
    rcases List.mem_cons.mp h with rfl | h
    · simp
    · have other : name a ≠ name b := fun same => distinct.1 (same ▸ List.mem_map_of_mem h)
      rw [beq_false_of_ne other]
      exact ih distinct.2 h

/-- Alternatives without content are told apart by their names. -/
theorem readName_name {all : List α} {name : α → String} (distinct : (all.map name).Nodup) {a : α}
    (h : a ∈ all) : readName all name (.string (name a)) = .ok a :=
  readChoice_string (lookup_name bare distinct h) rfl

/-! ## Records -/

namespace Reading

variable {f : α → β} {a : α} {i : Nat} {e : Fault}

def later : Reading α → Reading α
  | .value a => .value a
  | .fault i e => .fault (i + 1) e

@[simp] theorem later_value : (value a).later = value a := rfl
@[simp] theorem later_fault : (fault i e : Reading α).later = fault (i + 1) e := rfl
@[simp] theorem map_value : f <$> value a = value (f a) := rfl
@[simp] theorem map_fault : f <$> fault i e = fault i e := rfl
@[simp] theorem seq_value : value f <*> value a = value (f a) := rfl
@[simp] theorem seq_fault : value f <*> fault i e = fault i e := rfl
@[simp] theorem fault_seq : (fault i e : Reading (α → β)) <*> value a = fault i e := rfl
@[simp] theorem finish_value : (value a).finish none = .ok a := rfl
@[simp] theorem finish_fault : (fault i e : Reading α).finish none = .error e := rfl

end Reading

/-- The members of a record all stand where they may. -/
theorem memberFault?_eq_none {names : List String} {strict : Bool} {members : List (String × Json)} :
    ∀ {seen : List String} (position : Nat), (∀ m ∈ members, m.1 ∈ names) →
      (seen ++ members.map (·.1)).Nodup → (∀ m ∈ members, m.2.Proper) →
      memberFault? names strict seen position members = none := by
  induction members with
  | nil => exact fun _ _ _ _ => rfl
  | cons m members ih =>
    intro seen position known distinct proper
    have new : m.1 ∉ seen := fun h => (List.nodup_append'.mp distinct).2.2 h List.mem_cons_self
    -- the names seen so far and those to come are apart at every member
    have rest : ((m.1 :: seen) ++ members.map (·.1)).Nodup := by
      rw [List.map_cons] at distinct
      exact (List.perm_middle.nodup_iff).mp distinct
    rw [memberFault?, if_pos (known m List.mem_cons_self), if_neg new]
    · exact ih (position + 1) (fun m hm => known m (List.mem_cons_of_mem _ hm)) rest
        fun m hm => proper m (List.mem_cons_of_mem _ hm)
    · rintro v e
      have := proper m List.mem_cons_self
      rw [e] at this
      cases this

/-- A record that has its members in order and in full is read by its fields alone. -/
theorem readRecord_members {names : List String} {fields : Members → Reading α} {strict : Bool}
    {members : List (String × Json)} (all : members.map (·.1) = names) (distinct : names.Nodup)
    (proper : (Json.record members).Proper) {r : Except Fault α}
    (h : (fields ⟨members, .missingMember⟩).finish none = r) :
    readRecord names fields strict (.record members) = r := by
  subst all
  have none : memberFault? (members.map (·.1)) strict [] 0 members = none :=
    memberFault?_eq_none 0 (fun m hm => List.mem_map_of_mem hm) distinct fun m hm => by
      cases proper with
      | record h => exact h m hm
  rw [readRecord]
  simp only [none]
  exact h

theorem holdingRecord_members {names : List String} {fields : Members → Reading α}
    {members : List (String × Json)} (all : members.map (·.1) = names) (distinct : names.Nodup)
    (proper : (Json.record members).Proper) {r : Except Fault α}
    (h : (fields ⟨members, .missingMember⟩).finish none = r) :
    holdingRecord names fields (some (.record members)) = r :=
  readRecord_members all distinct proper h

namespace Members

variable {rest : List (String × Json)} {missing : String → Fault} {name other : String} {v : Json}
  {absent : Reading α} {f : Json → Except Fault α}

theorem read_head : read ⟨(name, v) :: rest, missing⟩ name absent f =
    match f v with
    | .ok a => .value a
    | .error e => .fault 0 e := by
  simp only [read, List.findIdx?_cons, beq_self_eq_true, if_true]
  rfl

theorem read_tail (apart : other ≠ name) :
    read ⟨(other, v) :: rest, missing⟩ name absent.later f = (read ⟨rest, missing⟩ name absent f).later := by
  simp only [read, List.findIdx?_cons, beq_false_of_ne apart, Bool.false_eq_true, if_false]
  cases rest.findIdx? (·.1 == name) with
  | none => rfl
  | some i =>
    simp only [Option.map_some, List.getElem?_cons_succ]
    cases f ((rest[i]?.map (·.2)).getD .null) <;> rfl

variable [Form α] {a default : α}

@[simp] theorem required_head [LawfulForm α] :
    required ⟨(name, toJson a) :: rest, missing⟩ name = .value a := by
  rw [required, read_head, ofJson_toJson]

theorem optional_value (h : ofJson v = .ok a) :
    optional ⟨(name, v) :: rest, missing⟩ name default = .value a := by
  rw [optional, read_head, h]

@[simp] theorem optional_head [LawfulForm α] :
    optional ⟨(name, toJson a) :: rest, missing⟩ name default = .value a :=
  optional_value (ofJson_toJson a)

theorem optional_fault {e : Fault} (h : (ofJson v : Except Fault α) = .error e) :
    optional ⟨(name, v) :: rest, missing⟩ name default = .fault 0 e := by
  rw [optional, read_head, h]

@[simp] theorem required_tail (apart : other ≠ name) :
    (required ⟨(other, v) :: rest, missing⟩ name : Reading α) = (required ⟨rest, missing⟩ name).later := by
  rw [required, required, ← read_tail apart]
  rfl

@[simp] theorem optional_tail (apart : other ≠ name) :
    optional ⟨(other, v) :: rest, missing⟩ name default = (optional ⟨rest, missing⟩ name default).later := by
  rw [optional, optional, ← read_tail apart]
  rfl

end Members

/-! ## Parts of a document -/

inductive Step where
  | member (name : String)
  | item (i : Nat)

/-- The value with another part where the path leads. -/
def replaceAt (j : Json) (path : List Step) (part : Json) : Json :=
  match path, j with
  | [], _ => part
  | .member name :: path, .object members closed =>
    .object (members.map fun m => if m.1 = name then (m.1, m.2.replaceAt path part) else m) closed
  | .item i :: path, .array items closed => .array (items.modify i (·.replaceAt path part)) closed
  | _, j => j

theorem Proper.replaceAt {part : Json} (new : part.Proper) {j : Json} (whole : j.Proper) (path : List Step) :
    (j.replaceAt path part).Proper := by
  induction path generalizing j with
  | nil =>
    rw [Json.replaceAt]
    exact new
  | cons step path ih =>
    unfold Json.replaceAt
    split
    · exact new
    · rename_i e
      obtain ⟨rfl, rfl⟩ := List.cons.inj e
      cases whole with
      | record h =>
        refine .record (List.forall_mem_map.mpr fun m hm => ?_)
        split
        · exact ih (h m hm)
        · exact h m hm
    · rename_i e
      obtain ⟨rfl, rfl⟩ := List.cons.inj e
      cases whole with
      | list h =>
        refine .list fun v hv => ?_
        obtain ⟨i, hi, rfl⟩ := List.getElem_of_mem hv
        rw [List.getElem_modify]
        split
        · exact ih (h _ (List.getElem_mem _))
        · exact h _ (List.getElem_mem _)
    · exact whole

/-- A list with another item is read as the list with that item changed, or is as faulty as the item. -/
theorem ofJson_item [Form α] [LawfulForm α] {part : Json} {path : List Step} {f : α → β → α}
    {read : Except Fault β} {a : α} (one : ofJson ((toJson a).replaceAt path part) = f a <$> read)
    {l : List α} {i : Nat} (h : l[i]? = some a) :
    ofJson ((toJson l).replaceAt (.item i :: path) part) = (fun b => l.modify i (f · b)) <$> read := by
  have items : ((l.map toJson).modify i (·.replaceAt path part)).mapM ofJson =
      (fun b => l.modify i (f · b)) <$> read := by
    induction l generalizing i with
    | nil => cases h
    | cons c l ih =>
      cases i with
      | zero =>
        obtain rfl := Option.some.inj h
        rw [List.map_cons, List.modify_zero_cons, List.mapM_cons, one, mapM_toJson]
        cases read <;> rfl
      | succ i =>
        rw [List.map_cons, List.modify_succ_cons, List.mapM_cons, ofJson_toJson, ih h]
        cases read <;> rfl
  show (((l.map toJson).modify i (·.replaceAt path part)).mapM ofJson >>= _ : Except Fault (List α)) = _
  rw [items]
  cases read <;> rfl

end FlowCheck.Json
