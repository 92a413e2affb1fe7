/-
  FlowCheck.Constants.Validator — checking the declarations of constants, one by one.

  The validator keeps the groups and a report. A grouped constant is accepted into its group or
  refused with a diagnostic; a refused one leaves no trace but its report entry. Fields that are no
  grouped constants are ignored. At the end, open groups of consecutive values with a gap are faulted,
  and with them all their members; then every group is validated.
-/

import FlowCheck.Constants.Group
import FlowCheck.Report

namespace FlowCheck.Constants

inductive Outcome where
  | accepted
  | rejected (kind : DiagnosticKind)
  deriving DecidableEq, Repr, Inhabited

def Outcome.name : Outcome → String
  | .accepted => "accepted"
  | .rejected kind => kind.key

def Outcome.isAccepted : Outcome → Bool
  | .accepted => true
  | .rejected _ => false

structure Validator where
  groups : SortedMap String Group
  report : Report Outcome

inductive Verdict where
  /-- It is no grouped constant. -/
  | ignored
  | accepted
  | rejected (d : Diagnostic)
  deriving DecidableEq, Repr

namespace Verdict

def outcome? : Verdict → Option Outcome
  | .ignored => none
  | .accepted => some .accepted
  | .rejected d => some (.rejected d.kind)

def diagnostics : Verdict → List Diagnostic
  | .rejected d => [d]
  | _ => []

end Verdict

namespace Validator

def start : Validator := ⟨.empty, .empty⟩

variable (v : Validator)

def group? (name : String) : Option Group := v.groups.find? name

/-- A group exists from its first accepted constant on. -/
def status (name : String) : GroupStatus := (v.group? name).elim .unseen (·.status)

def judge (declaration : String) (f : Field) : Except Refusal Literal → Verdict
  | .ok _ => .accepted
  | .error r =>
    .rejected { location := f.location, kind := .constant r.fault, args := r.args, context := some declaration }

def validate (declaration : String) (f : Field) : Verdict × Validator :=
  match f.group with
  | none => (.ignored, v)
  | some name =>
    if f.modifiers.isConstant then
      let answer := admissible name (v.group? name) f
      let verdict := judge declaration f answer
      let groups :=
        match answer with
        | .ok value =>
          v.groups.insert name (((v.group? name).getD (.foundedBy name f)).accept declaration f value)
        | .error _ => v.groups
      let report :=
        match verdict.outcome? with
        | some outcome => v.report.record declaration f.name outcome
        | none => v.report
      (verdict, { groups, report })
    else (.ignored, v)

def validateAll (declaration : String) (v : Validator) : List Field → List Diagnostic × Validator
  | [] => ([], v)
  | f :: rest =>
    let (verdict, v) := v.validate declaration f
    let (diagnostics, v) := validateAll declaration v rest
    (verdict.diagnostics ++ diagnostics, v)

def validateDeclaration (d : Declaration) : List Diagnostic × Validator := v.validateAll d.name d.fields

/-- The open groups whose values leave a gap, by name. -/
def gaps : List Group := v.groups.values.filter fun g => g.status == .open && g.hasGap

def faultMembers (report : Report Outcome) (g : Group) : Report Outcome :=
  g.members.foldl (fun r (d, c) => r.record d c (.rejected (.constant .nonconsecutive))) report

/-- What the end of a run leaves: every group validated, and the members of those with a gap faulted. -/
def closed : Validator where
  groups := v.groups.mapValues (·.close)
  report := v.gaps.foldl faultMembers v.report

/-- Ends the run: the diagnostics of groups with a gap, and the final report. -/
def finish : List Diagnostic × Report Outcome := (v.gaps.map (·.gapDiagnostic), v.closed.report)

end Validator

end FlowCheck.Constants
