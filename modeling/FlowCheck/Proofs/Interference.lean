/-
  FlowCheck.Proofs.Interference — groups do not interfere, and a refused constant leaves no trace.

  A verdict reads the record of the constant's own group and nothing else (`validate_alike`), and a
  check writes no other record (`group?_validate`), none at all if the constant is not accepted
  (`groups_validate`). So two runs stay in step on one group as long as they check the same
  constants of that group, whatever one of them checks in between; and a run stays in step with
  the one that leaves its refused constants out (`groups_apart`).
-/

import FlowCheck.Proofs.Accounts

namespace FlowCheck.Constants

def ofGroup (name : String) (calls : List (String × Field)) : List (String × Field) :=
  calls.filter fun c => c.2.isGroupedConstant ∧ c.2.group = some name

def Judged.isRefused (j : Judged) : Bool :=
  match j.verdict with
  | .rejected _ => true
  | _ => false

/-- The fields to check without those that the run over all of them refuses. -/
def unrefused (calls : List (String × Field)) : List (String × Field) :=
  ((Validator.judgeAll calls).1.filter fun j => !j.isRefused).map fun j => (j.declaration, j.field)

theorem ofGroup_append (name : String) (calls : List (String × Field)) (c : String × Field) :
    ofGroup name (calls ++ [c]) =
      ofGroup name calls ++ if c.2.isGroupedConstant ∧ c.2.group = some name then [c] else [] := by
  rw [ofGroup, List.filter_append]
  congr 1
  by_cases h : c.2.isGroupedConstant ∧ c.2.group = some name <;> simp [h]

namespace Validator

variable {v w : Validator} (declaration : String) (f : Field)

/-- The verdict on a constant and what becomes of its group depend on the record of that group alone. -/
theorem validate_alike {name : String} (own : f.group = some name) (same : v.group? name = w.group? name) :
    (v.validate declaration f).1 = (w.validate declaration f).1 ∧
      (v.validate declaration f).2.group? name = (w.validate declaration f).2.group? name := by
  unfold validate
  rw [own]
  dsimp only
  rw [same]
  split
  · refine ⟨rfl, ?_⟩
    cases admissible name (w.group? name) f with
    | ok value =>
      show (v.groups.insert name _).find? name = (w.groups.insert name _).find? name
      rw [SortedMap.find?_insert, SortedMap.find?_insert, if_pos rfl, if_pos rfl]
    | error r => exact same
  · exact ⟨rfl, same⟩

/-- Where all groups are the same, so is the verdict, and they stay the same. -/
theorem validate_alike_all (same : v.groups = w.groups) :
    (v.validate declaration f).1 = (w.validate declaration f).1 ∧
      (v.validate declaration f).2.groups = (w.validate declaration f).2.groups := by
  unfold validate group?
  rw [same]
  cases f.group with
  | none => exact ⟨rfl, same⟩
  | some name =>
    dsimp only
    split
    · exact ⟨rfl, rfl⟩
    · exact ⟨rfl, same⟩

/-- A field that is refused or ignored changes no group. -/
theorem groups_validate (out : (v.validate declaration f).1 ≠ .accepted) :
    (v.validate declaration f).2.groups = v.groups := by
  rcases v.validate_cases declaration f with ⟨-, e⟩ | ⟨name, -, -, ⟨value, -, e⟩ | ⟨r, -, e⟩⟩
  · rw [e]
  · rw [e] at out
    exact absurd rfl out
  · rw [e]

/-- No field changes a group other than the one it is a constant of. -/
theorem group?_validate {name : String} (other : ¬(f.isGroupedConstant = true ∧ f.group = some name)) :
    (v.validate declaration f).2.group? name = v.group? name := by
  rcases v.validate_cases declaration f with ⟨-, e⟩ | ⟨own, grouped, constant, ⟨value, -, e⟩ | ⟨r, -, e⟩⟩
  · rw [e]
  · rw [e, group?, SortedMap.find?_insert, if_neg]
    · rfl
    · exact fun same => other ⟨constant, same ▸ grouped⟩
  · rw [e]
    rfl

/-- A grouped constant that is not refused is accepted. -/
theorem accepted_of_unrefused {calls : List (String × Field)} {j : Judged} (hj : j ∈ (judgeAll calls).1)
    (constant : j.field.isGroupedConstant = true) (unrefused : j.isRefused = false) : j.verdict = .accepted := by
  obtain ⟨v, e⟩ := exists_of_mem_judgeAll calls j hj
  rcases v.validate_cases j.declaration j.field with ⟨plain, -⟩ | ⟨_, -, -, ⟨_, -, h⟩ | ⟨_, -, h⟩⟩
  · rw [constant] at plain
    cases plain
  · rw [e, h]
  · rw [Judged.isRefused, e, h] at unrefused
    cases unrefused

/-- The constants of a group fare as they do alone, and so does the group. -/
theorem judgeAll_ofGroup (name : String) (calls : List (String × Field)) :
    (judgeAll (ofGroup name calls)).1 =
        (judgeAll calls).1.filter (fun j => j.field.isGroupedConstant ∧ j.field.group = some name) ∧
      (judgeAll (ofGroup name calls)).2.group? name = (judgeAll calls).2.group? name := by
  induction calls using List.reverseRecOn with
  | nil => exact ⟨rfl, rfl⟩
  | append_singleton calls c ih =>
    obtain ⟨verdicts, same⟩ := ih
    rw [ofGroup_append, judgeAll_append, judgeNext]
    split
    · rename_i own
      obtain ⟨verdict, after⟩ := validate_alike c.1 c.2 own.2 same
      rw [judgeAll_append, judgeNext, verdicts, List.filter_append]
      refine ⟨?_, after⟩
      simp [own, verdict]
    · -- the run over the group alone does not see this field
      rename_i other
      rw [List.append_nil, verdicts, same, List.filter_append]
      refine ⟨?_, (group?_validate c.1 c.2 other).symm⟩
      simp [other]

/-- A run does not notice when its refused constants are left out. -/
theorem judgeAll_unrefused (calls : List (String × Field)) :
    (judgeAll (unrefused calls)).1 = (judgeAll calls).1.filter (fun j => !j.isRefused) ∧
      (judgeAll (unrefused calls)).2.groups = (judgeAll calls).2.groups := by
  induction calls using List.reverseRecOn with
  | nil => exact ⟨rfl, rfl⟩
  | append_singleton calls c ih =>
    obtain ⟨verdicts, same⟩ := ih
    obtain ⟨verdict, after⟩ := validate_alike_all c.1 c.2 same
    unfold unrefused at *
    rw [judgeAll_append, judgeNext, List.filter_append, List.map_append]
    cases refused : Judged.isRefused ⟨c.1, c.2, ((judgeAll calls).2.validate c.1 c.2).1⟩ with
    | false =>
      rw [List.filter_cons_of_pos (by rw [refused]; rfl), List.filter_nil, List.map_singleton, judgeAll_append,
        judgeNext, verdicts, verdict]
      exact ⟨rfl, after⟩
    | true =>
      rw [List.filter_cons_of_neg (by rw [refused]; decide), List.filter_nil, List.map_nil, List.append_nil,
        List.append_nil, same]
      refine ⟨verdicts, (groups_validate c.1 c.2 fun accepted => ?_).symm⟩
      rw [Judged.isRefused, accepted] at refused
      cases refused

end Validator

/-- What happens to one group is decided by its own constants: they get the verdicts, and the group the
record, of a run over them alone. Without the refused constants a run accepts all that are left and
ends with the same groups. -/
theorem groups_apart (calls : List (String × Field)) :
    let run := Validator.judgeAll calls
    let rest := Validator.judgeAll (unrefused calls)
    (∀ name,
      let alone := Validator.judgeAll (ofGroup name calls)
      alone.1 = run.1.filter (fun j => j.field.isGroupedConstant ∧ j.field.group = some name) ∧
        alone.2.group? name = run.2.group? name) ∧
      ((unrefused calls).Sublist calls ∧ rest.1 = run.1.filter (fun j => !j.isRefused) ∧
        (∀ j ∈ rest.1, j.field.isGroupedConstant = true → j.verdict = .accepted) ∧
        rest.2.groups = run.2.groups) ∧
      ∀ (v : Validator) (declaration : String) (f : Field),
        ((v.validate declaration f).1 ≠ .accepted → (v.validate declaration f).2.groups = v.groups) ∧
          ∀ name, ¬(f.isGroupedConstant = true ∧ f.group = some name) →
            (v.validate declaration f).2.group? name = v.group? name := by
  intro run rest
  obtain ⟨verdicts, same⟩ := Validator.judgeAll_unrefused calls
  refine ⟨fun name => Validator.judgeAll_ofGroup name calls, ⟨?_, verdicts, fun j hj constant => ?_, same⟩,
    fun v declaration f => ⟨v.groups_validate declaration f, fun name => v.group?_validate declaration f⟩⟩
  · have kept : (run.1.filter fun j => !j.isRefused).Sublist run.1 := List.filter_sublist
    have fields := kept.map fun j => (j.declaration, j.field)
    rwa [Validator.judgeAll_fields] at fields
  · have unrefused : j.isRefused = false := by
      rw [verdicts] at hj
      simpa using (List.mem_filter.mp hj).2
    exact Validator.accepted_of_unrefused hj constant unrefused

/-- A group with a value given twice, and another group with the same value. -/
def repeatedValue : List (String × Field) :=
  [("D", .constant "X" "A" .unconstrained (.int 1)), ("D", .constant "Y" "A" .unconstrained (.int 1)),
    ("E", .constant "Z" "B" .unconstrained (.int 1))]

/-- The second constant is refused. The groups are those of the other two, and the other group is not
touched by it. -/
theorem groups_apart_repeatedValue :
    let before := (Validator.judgeAll (repeatedValue.take 1)).2
    (Validator.judgeAll repeatedValue).1.map (·.isRefused) = [false, true, false] ∧
      (Validator.judgeAll (unrefused repeatedValue)).2.groups = (Validator.judgeAll repeatedValue).2.groups ∧
      (∀ j ∈ (Validator.judgeAll (unrefused repeatedValue)).1, j.verdict = .accepted) ∧
      (before.validate "D" (.constant "Y" "A" .unconstrained (.int 1))).2.groups = before.groups ∧
      (before.validate "E" (.constant "Z" "B" .unconstrained (.int 1))).2.group? "A" = before.group? "A" := by
  intro before
  obtain ⟨-, ⟨-, -, accepted, same⟩, one⟩ := groups_apart repeatedValue
  refine ⟨by decide +kernel, same, fun j hj => accepted j hj ?_, (one _ _ _).1 (by decide +kernel),
    (one _ _ _).2 "A" (by decide +kernel)⟩
  revert j
  decide +kernel

end FlowCheck.Constants
