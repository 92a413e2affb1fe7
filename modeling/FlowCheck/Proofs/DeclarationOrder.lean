/-
  FlowCheck.Proofs.DeclarationOrder — the order of declarations decides nothing about routines.

  All declarations are registered before the first is checked, and a check adds nothing to what
  routines may refer to. So it is enough that the tables do not depend on the order
  (`register_perm`) and that the checks only read them (`transcript_reported`). Two entries of a
  table may be written in either order if their keys differ (`foldl_perm`), which is what
  `Program.Distinct` asks for.

  A transcript says what is reported for each declaration; the diagnostics of a run are those of its
  transcript, and at the end those of groups (`diagnostics_check`). Diagnostics of constants are left
  out on purpose: the first constant of a group decides what the others must be.
-/

import FlowCheck.Proofs.Groups
import FlowCheck.Session

namespace FlowCheck

/-! ## Writes to different keys -/

/-- Folding steps that commute for different keys over entries whose keys differ. -/
theorem foldl_perm {α β κ : Type} {step : β → α → β} {key : α → κ}
    (comm : ∀ b x y, key x ≠ key y → step (step b x) y = step (step b y) x) {l m : List α} (perm : m.Perm l)
    (keys : (l.map key).Nodup) (b : β) : m.foldl step b = l.foldl step b := by
  refine perm.foldl_eq' (fun x hx y hy b => ?_) b
  by_cases same : key x = key y
  · rw [List.inj_on_of_nodup_map keys (perm.mem_iff.mp hx) (perm.mem_iff.mp hy) same]
  · exact comm b x y same

theorem Report.record_comm {α : Type} (r : Report α) {d m e n : String} (other : (d, m) ≠ (e, n)) (a b : α) :
    (r.record d m a).record e n b = (r.record e n b).record d m a := by
  unfold record members?
  simp only [SortedMap.find?_insert]
  by_cases same : d = e
  · subst same
    have other : m ≠ n := fun h => other (h ▸ rfl)
    simp only [if_true, Option.getD_some, SortedMap.insert_insert, SortedMap.insert_comm _ other]
  · simp only [if_neg same, if_neg (Ne.symm same), SortedMap.insert_comm _ same]

/-! ## What a program makes known -/

def Program.fields (p : Program) : List (String × Field) := p.declarations.flatMap fun d => d.fields.map (d.name, ·)

def Program.routines (p : Program) : List (String × Routine) :=
  p.declarations.flatMap fun d => d.routines.map (d.name, ·)

def Routine.contract? (declaration : String) (r : Routine) : Option (String × Purity.Label) :=
  r.declaredPurity.map (r.qualifiedName declaration, ·)

def Program.contracts (p : Program) : List (String × Purity.Label) :=
  p.routines.filterMap fun e => e.2.contract? e.1

/-- No two entries of a program are written to the same place. -/
structure Program.Distinct (p : Program) : Prop where
  fields : (p.fields.map fun e => (e.1, e.2.name)).Nodup
  routines : (p.routines.map fun e => (e.1, e.2.signature)).Nodup
  contracts : (p.contracts.map (·.1)).Nodup

namespace Constants.FieldTable

def declare (t : FieldTable) (e : String × Field) : FieldTable :=
  t.insert (.field e.1 e.2.name) (.typed e.2.type (Tag.ofGroup e.2.group))

theorem declare_comm (t : FieldTable) (e f : String × Field) (other : (e.1, e.2.name) ≠ (f.1, f.2.name)) :
    (t.declare e).declare f = (t.declare f).declare e :=
  SortedMap.insert_comm t (fun h => other (by injection h with owner name; rw [owner, name])) _ _

end Constants.FieldTable

/-- Labels of different routines may be declared in either order. -/
theorem Purity.Classifier.declare_comm (c : Classifier) (e f : String × Label) (other : e.1 ≠ f.1) :
    (c.declare e.1 e.2).declare f.1 f.2 = (c.declare f.1 f.2).declare e.1 e.2 := by
  unfold declare
  rw [SortedMap.insert_comm _ other]

namespace Session

variable (s : Session)

theorem register_eq (p : Program) :
    s.register p = { s with fields := p.fields.foldl Constants.FieldTable.declare s.fields
                            classifier := p.contracts.foldl (fun c e => c.declare e.1 e.2) s.classifier } := by
  have one : ∀ (s : Session) (d : Declaration), s.registerDeclaration d =
      { s with
        fields := (d.fields.map (d.name, ·)).foldl Constants.FieldTable.declare s.fields
        classifier := ((d.routines.map (d.name, ·)).filterMap fun e => e.2.contract? e.1).foldl
          (fun c e => c.declare e.1 e.2) s.classifier } := fun s d => by
    unfold registerDeclaration Constants.FieldTable.register Purity.Classifier.register
    rw [List.foldl_map, List.foldl_filterMap, List.foldl_map]
    congr 2
    funext c r
    unfold Routine.contract?
    cases r.declaredPurity <;> rfl
  obtain ⟨l⟩ := p
  unfold register Program.contracts Program.routines Program.fields
  induction l generalizing s with
  | nil => rfl
  | cons d rest ih =>
    rw [List.foldl_cons, ih, one]
    simp only [List.flatMap_cons, List.foldl_append, List.filterMap_append]

/-- What becomes known does not depend on the order of declarations. -/
theorem register_perm {p q : Program} (distinct : p.Distinct) (perm : q.declarations.Perm p.declarations) :
    s.register q = s.register p := by
  have fields : q.fields.Perm p.fields := perm.flatMap_right _
  have contracts : q.contracts.Perm p.contracts := (perm.flatMap_right _).filterMap _
  rw [register_eq, register_eq, foldl_perm Constants.FieldTable.declare_comm fields distinct.fields,
    foldl_perm Purity.Classifier.declare_comm contracts distinct.contracts]

end Session

/-! ## What a check reports -/

inductive Check where
  | constants
  | usage
  | purity
  deriving DecidableEq, Repr

def DiagnosticKind.check : DiagnosticKind → Check
  | .constant _ => .constants
  | .mixing _ => .usage
  | .notDeterministic _ | .notSideEffectFree _ => .purity

def Check.reported (c : Check) (l : List Diagnostic) : List Diagnostic := l.filter (·.kind.check = c)

def Check.Raises (c : Check) (l : List Diagnostic) : Prop := ∀ d ∈ l, d.kind.check = c

theorem Check.raises_nil (c : Check) : c.Raises [] := fun _ h => nomatch h

theorem Check.Raises.append {c : Check} {l m : List Diagnostic} (hl : c.Raises l) (hm : c.Raises m) :
    c.Raises (l ++ m) :=
  List.forall_mem_append.mpr ⟨hl, hm⟩

theorem Check.Raises.flatMap {α : Type} {c : Check} {l : List α} {f : α → List Diagnostic} (h : ∀ a, c.Raises (f a)) :
    c.Raises (l.flatMap f) := by
  intro d hd
  obtain ⟨a, -, hd⟩ := List.mem_flatMap.mp hd
  exact h a d hd

theorem Check.Raises.reported_eq {c : Check} {l : List Diagnostic} (h : c.Raises l) (e : Check) :
    e.reported l = if c = e then l else [] := by
  unfold Check.reported
  split
  · rename_i same
    exact List.filter_eq_self.mpr fun d hd => decide_eq_true ((h d hd).trans same)
  · rename_i other
    exact List.filter_eq_nil_iff.mpr fun d hd raised => other ((h d hd).symm.trans (of_decide_eq_true raised))

namespace Constants

theorem Validator.raises_validate (v : Validator) (declaration : String) (f : Field) :
    Check.constants.Raises (v.validate declaration f).1.diagnostics := by
  rcases v.validate_cases declaration f with ⟨-, e⟩ | ⟨_, -, -, ⟨_, -, e⟩ | ⟨_, -, e⟩⟩ <;> rw [e]
  · exact Check.raises_nil _
  · exact Check.raises_nil _
  · exact List.forall_mem_singleton.mpr rfl

theorem Validator.raises_validateAll (v : Validator) (declaration : String) (l : List Field) :
    Check.constants.Raises (validateAll declaration v l).1 := by
  induction l generalizing v with
  | nil => exact Check.raises_nil _
  | cons f rest ih => exact (v.raises_validate declaration f).append (ih _)

theorem Scope.raises_check (s : Scope) (limits : Limits) (r : Routine) :
    Check.usage.Raises (s.check limits r).1 := by
  unfold check
  split
  · exact List.forall_mem_map.mpr fun _ _ => rfl
  · exact Check.raises_nil _

end Constants

namespace Purity

theorem raises_contractDiagnostics (g : Flowgraph) (required : Properties) (context : String)
    (result : Result Properties Impurity) : Check.purity.Raises (contractDiagnostics g required context result) := by
  refine Check.Raises.flatMap fun (n, impurity) => Check.Raises.append ?_ ?_
  -- determinism, then side effects
  · split
    · exact List.forall_mem_singleton.mpr rfl
    · exact Check.raises_nil _
  · split
    · exact List.forall_mem_singleton.mpr rfl
    · exact Check.raises_nil _

namespace Classifier

variable (c : Classifier)

theorem raises_judge (declaration : String) (r : Routine) : Check.purity.Raises (c.judge declaration r).2 := by
  unfold judge
  cases r.body with
  | none => exact Check.raises_nil _
  | some g =>
    cases r.declaredPurity with
    | none => exact Check.raises_nil _
    | some label => exact raises_contractDiagnostics g label.properties _ _

def recordLabel (report : Report Label) (e : String × Routine) : Report Label :=
  report.record e.1 e.2.signature (c.judge e.1 e.2).1

/-- Labelling the routines of a declaration changes nothing but the report, and so no later label. -/
theorem classifyAll_eq (declaration : String) (l : List Routine) :
    c.classifyAll declaration l =
      (l.flatMap fun r => (c.judge declaration r).2,
        { c with report := (l.map (declaration, ·)).foldl c.recordLabel c.report }) := by
  induction l generalizing c with
  | nil => rfl
  | cons r rest ih =>
    have one : c.classifyAll declaration (r :: rest) =
        ((c.judge declaration r).2 ++ ((c.classify declaration r).2.classifyAll declaration rest).1,
          ((c.classify declaration r).2.classifyAll declaration rest).2) := rfl
    rw [one, ih]
    rfl

end Classifier

end Purity

/-- A declaration, what the usage check reports it for, and what the purity check does. -/
def routineReports (e : Declaration × List Diagnostic) : Declaration × List Diagnostic × List Diagnostic :=
  (e.1, Check.usage.reported e.2, Check.purity.reported e.2)

namespace Session

variable (s : Session)

def breaches (d : Declaration) : List Diagnostic := d.routines.flatMap fun r => (s.classifier.judge d.name r).2

def transcript : Session → List Declaration → List (Declaration × List Diagnostic)
  | _, [] => []
  | s, d :: rest =>
    (d, (s.checkDeclaration d).diagnostics.drop s.diagnostics.length) :: (s.checkDeclaration d).transcript rest

theorem checkDeclaration_eq (d : Declaration) :
    s.checkDeclaration d =
      { s with
        validator := (s.validator.validateDeclaration d).2
        classifier := { s.classifier with
          report := (d.routines.map (d.name, ·)).foldl s.classifier.recordLabel s.classifier.report }
        diagnostics := s.diagnostics ++ ((s.validator.validateDeclaration d).1 ++ s.misuses d ++ s.breaches d) } := by
  unfold checkDeclaration Purity.Classifier.classifyDeclaration breaches
  rw [Purity.Classifier.classifyAll_eq]
  simp only [List.append_assoc]

theorem misuses_checkDeclaration (d e : Declaration) : (s.checkDeclaration d).misuses e = s.misuses e := by
  rw [checkDeclaration_eq]; rfl

theorem breaches_checkDeclaration (d e : Declaration) : (s.checkDeclaration d).breaches e = s.breaches e := by
  rw [checkDeclaration_eq]; rfl

/-- The labels of a run, each given from what was known before the first check. -/
theorem report_checkAll (l : List Declaration) :
    (l.foldl checkDeclaration s).classifier.report =
      (l.flatMap fun d => d.routines.map (d.name, ·)).foldl s.classifier.recordLabel s.classifier.report := by
  induction l generalizing s with
  | nil => rfl
  | cons d rest ih =>
    rw [List.foldl_cons, ih, List.flatMap_cons, List.foldl_append, checkDeclaration_eq]
    rfl

theorem diagnostics_checkAll (l : List Declaration) :
    (l.foldl checkDeclaration s).diagnostics = s.diagnostics ++ (s.transcript l).flatMap (·.2) := by
  induction l generalizing s with
  | nil => simp [transcript]
  | cons d rest ih =>
    rw [List.foldl_cons, ih, transcript, List.flatMap_cons, checkDeclaration_eq]
    simp

/-- What the checks of routines add to the diagnostics of a session. -/
theorem reported_checkDeclaration (d : Declaration) :
    let found := (s.checkDeclaration d).diagnostics.drop s.diagnostics.length
    Check.usage.reported found = s.misuses d ∧ Check.purity.reported found = s.breaches d := by
  intro found
  have constants : Check.constants.Raises (s.validator.validateDeclaration d).1 :=
    s.validator.raises_validateAll d.name d.fields
  have usage : Check.usage.Raises (s.misuses d) := .flatMap (Constants.Scope.raises_check _ _)
  have purity : Check.purity.Raises (s.breaches d) := .flatMap (s.classifier.raises_judge _)
  have parts (c : Check) : c.reported found =
      c.reported (s.validator.validateDeclaration d).1 ++ c.reported (s.misuses d) ++ c.reported (s.breaches d) := by
    simp only [found, checkDeclaration_eq, List.drop_left, Check.reported, List.filter_append]
  constructor <;> simp [parts, constants.reported_eq, usage.reported_eq, purity.reported_eq]

/-- What the checks of routines report, each found from what was known before the first check. -/
theorem transcript_reported (l : List Declaration) :
    (s.transcript l).map routineReports = l.map fun d => (d, s.misuses d, s.breaches d) := by
  induction l generalizing s with
  | nil => rfl
  | cons d rest ih =>
    obtain ⟨usage, purity⟩ := s.reported_checkDeclaration d
    rw [transcript, List.map_cons, List.map_cons, ih, routineReports, usage, purity]
    simp only [misuses_checkDeclaration, breaches_checkDeclaration]

end Session

namespace Program

variable (p q : Program) (o : Options)

def transcript : List (Declaration × List Diagnostic) := ((Session.start o).register p).transcript p.declarations

/-- The diagnostics of a run are those of its declarations, in order, and then those of groups. -/
theorem diagnostics_check :
    ∃ groups, Check.constants.Raises groups ∧
      (p.check o).diagnostics = (p.transcript o).flatMap (·.2) ++ groups := by
  have checked := ((Session.start o).register p).diagnostics_checkAll p.declarations
  have silent : ((Session.start o).register p).diagnostics = [] := by rw [Session.register_eq]; rfl
  rw [silent, List.nil_append] at checked
  exact ⟨_, List.forall_mem_map.mpr fun _ _ => rfl, congrArg (· ++ _) checked⟩

/-- What a run reports of routines is what its transcript has of them. -/
theorem reported_check :
    Check.usage.reported (p.check o).diagnostics = ((p.transcript o).map routineReports).flatMap (·.2.1) ∧
      Check.purity.reported (p.check o).diagnostics = ((p.transcript o).map routineReports).flatMap (·.2.2) := by
  obtain ⟨groups, constants, diagnostics⟩ := p.diagnostics_check o
  have parts (c : Check) : c.reported (p.check o).diagnostics =
      (p.transcript o).flatMap (fun e => c.reported e.2) ++ c.reported groups := by
    rw [diagnostics]
    simp only [Check.reported, List.filter_append, List.filter_flatMap]
  rw [parts, parts, constants.reported_eq, constants.reported_eq, List.flatMap_map, List.flatMap_map]
  exact ⟨List.append_nil _, List.append_nil _⟩

variable {p q} in
/-- The purity report does not depend on the order of declarations, and neither does what a declaration is
reported for by the checks of its routines: each run has these reports, declaration by declaration. -/
theorem order_immaterial (distinct : p.Distinct) (perm : q.declarations.Perm p.declarations) :
    (q.check o).purity = (p.check o).purity ∧
      ∃ found : Declaration → List Diagnostic × List Diagnostic, ∀ r ∈ [p, q],
        (r.transcript o).map routineReports = r.declarations.map (fun d => (d, found d)) ∧
          Check.usage.reported (r.check o).diagnostics = r.declarations.flatMap (fun d => (found d).1) ∧
          Check.purity.reported (r.check o).diagnostics = r.declarations.flatMap fun d => (found d).2 := by
  have known : (Session.start o).register q = (Session.start o).register p := Session.register_perm _ distinct perm
  let s := (Session.start o).register p
  refine ⟨?_, fun d => (s.misuses d, s.breaches d), fun r hr => ?_⟩
  · have routines : q.routines.Perm p.routines := perm.flatMap_right _
    have labels : q.routines.foldl s.classifier.recordLabel s.classifier.report =
        p.routines.foldl s.classifier.recordLabel s.classifier.report :=
      foldl_perm (fun r e f other => r.record_comm other _ _) routines distinct.routines _
    unfold check Session.checkProgram Session.finish
    rw [known]
    exact (s.report_checkAll q.declarations).trans (labels.trans (s.report_checkAll p.declarations).symm)
  · have same : (Session.start o).register r = s := by
      rcases List.mem_pair.mp hr with rfl | rfl
      · rfl
      · exact known
    have reports : (r.transcript o).map routineReports = r.declarations.map fun d => (d, s.misuses d, s.breaches d) := by
      rw [transcript, same]
      exact s.transcript_reported r.declarations
    obtain ⟨usage, purity⟩ := r.reported_check o
    rw [reports, List.flatMap_map] at usage purity
    exact ⟨reports, usage, purity⟩

end Program

/-! ## A routine that refers to a later declaration -/

/-- Compares the field `B.x` with the parameter `p`, then calls `B.g()`. -/
def asking : Flowgraph where
  blocks := #[{ id := ⟨0⟩, role := .entry, nodes := [⟨0⟩, ⟨1⟩, ⟨2⟩, ⟨3⟩] }]
  nodes := #[{ id := ⟨0⟩, operation := .read (.field "B" "x") }, { id := ⟨1⟩, operation := .read (.local "p") },
    { id := ⟨2⟩, operation := .binary .lt ⟨0⟩ ⟨1⟩ }, { id := ⟨3⟩, operation := .call "B.g()" none [] }]
  edges := []
  checked := by decide

/-- A routine that promises to be pure. Its parameter is of another group than the field. -/
def asker : Declaration where
  name := "A"
  routines := [{ name := "f", parameters := [{ name := "p", type := .int, group := some "H" }]
                 declaredPurity := some .pure, body := some asking }]

def asked : Declaration where
  name := "B"
  fields := [{ name := "x", type := .int, group := some "G" }]
  routines := [{ name := "g", declaredPurity := some .sideEffectFree }]

theorem order_immaterial_asker :
    let p : Program := ⟨[asker, asked]⟩
    let q : Program := ⟨[asked, asker]⟩
    p.Distinct ∧ q.declarations.Perm p.declarations ∧
      ((Session.start {}).register p).classifier.callees.effect "B.g()" = ⟨false, true⟩ ∧
      (q.check {}).purity = (p.check {}).purity ∧
      ∃ found : Declaration → List Diagnostic × List Diagnostic, ∀ r ∈ [p, q],
        (r.transcript {}).map routineReports = r.declarations.map (fun d => (d, found d)) ∧
          Check.usage.reported (r.check {}).diagnostics = r.declarations.flatMap (fun d => (found d).1) ∧
          Check.purity.reported (r.check {}).diagnostics = r.declarations.flatMap fun d => (found d).2 := by
  intro p q
  have distinct : p.Distinct := ⟨by decide, by decide, by decide⟩
  have perm : q.declarations.Perm p.declarations := List.Perm.swap asker asked []
  exact ⟨distinct, perm, by decide, Program.order_immaterial {} distinct perm⟩

end FlowCheck
