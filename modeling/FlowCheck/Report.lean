/-
  FlowCheck.Report — what a run found out, by declaration and member.

  Constants are reported with their outcome, routines with their purity. Both tables list names in
  order; the last entry recorded for a member is the one that stands.
-/

import FlowCheck.SortedMap

namespace FlowCheck

/-- Results by declaration, then by member. -/
structure Report (α : Type) where
  declarations : SortedMap String (SortedMap String α)
  deriving DecidableEq, Inhabited

namespace Report

variable {α : Type}

def empty : Report α := ⟨.empty⟩

variable (r : Report α)

def members? (declaration : String) : Option (SortedMap String α) := r.declarations.find? declaration

def find? (declaration member : String) : Option α := (r.members? declaration).bind (·.find? member)

def record (declaration member : String) (a : α) : Report α :=
  ⟨r.declarations.insert declaration (((r.members? declaration).getD .empty).insert member a)⟩

def toList : List (String × String × α) :=
  r.declarations.entries.flatMap fun (d, members) => members.entries.map fun (m, a) => (d, m, a)

def size : Nat := r.toList.length

/-- No declaration is listed, be it without members. -/
def isEmpty : Bool := r.declarations.isEmpty

theorem find?_record (d e m n : String) (a : α) :
    (r.record d m a).find? e n = if d = e ∧ m = n then some a else r.find? e n := by
  unfold record find? members?
  simp only [SortedMap.find?_insert]
  by_cases hd : d = e
  · subst hd
    simp only [if_true, Option.bind_some, SortedMap.find?_insert, true_and]
    cases r.declarations.find? d <;> rfl
  · simp [hd]

end Report

end FlowCheck
