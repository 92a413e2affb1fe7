/-
  FlowCheck.Purity.Classifier — labelling routines.

  A routine with a body gets the label of the effect of its body. Without one nothing can be
  analysed, and it gets what the options assume. A declared label is a contract: every node that
  lacks a promised property is reported, once for each property.
-/

import FlowCheck.Diagnostic
import FlowCheck.Program
import FlowCheck.Purity.Analysis
import FlowCheck.Report

namespace FlowCheck.Purity

def contractDiagnostics (g : Flowgraph) (required : Properties) (context : String)
    (result : Result Properties Impurity) : List Diagnostic :=
  result.allFacts.flatMap fun (n, impurity) =>
    let location := ((g.node? n).map (·.location)).getD .unknown
    let report (kind : DiagnosticKind) : Diagnostic := { location, kind, context := some context }
    (if required.deterministic && !impurity.effect.deterministic
      then [report (.notDeterministic impurity.cause)] else [])
    ++ (if required.sideEffectFree && !impurity.effect.sideEffectFree
      then [report (.notSideEffectFree impurity.cause)] else [])

structure Classifier where
  limits : Limits
  callees : Callees
  report : Report Label

namespace Classifier

variable (c : Classifier)

def start (limits : Limits) (callees : Callees) : Classifier := { limits, callees, report := .empty }

def declare (callee : String) (label : Label) : Classifier :=
  { c with callees := { c.callees with declared := c.callees.declared.insert callee label } }

/-- Declares the routines of a declaration that come with a label. -/
def register (d : Declaration) : Classifier :=
  d.routines.foldl (fun c r =>
    match r.declaredPurity with
    | some label => c.declare (r.qualifiedName d.name) label
    | none => c) c

def analyze (r : Routine) : Option (Result Properties Impurity) := r.body.map (c.callees.analyze c.limits)

def judge (declaration : String) (r : Routine) : Label × List Diagnostic :=
  match r.body with
  | some g =>
    let result := c.callees.analyze c.limits g
    (.ofProperties (effectOf g result),
      match r.declaredPurity with
      | some label => contractDiagnostics g label.properties (r.qualifiedName declaration) result
      | none => [])
  | none => (.ofProperties c.callees.assumed, [])

def classify (declaration : String) (r : Routine) : (Label × List Diagnostic) × Classifier :=
  let (label, diagnostics) := c.judge declaration r
  ((label, diagnostics), { c with report := c.report.record declaration r.signature label })

def classifyAll (declaration : String) (c : Classifier) : List Routine → List Diagnostic × Classifier
  | [] => ([], c)
  | r :: rest =>
    let ((_, diagnostics), c) := c.classify declaration r
    let (more, c) := classifyAll declaration c rest
    (diagnostics ++ more, c)

def classifyDeclaration (d : Declaration) : List Diagnostic × Classifier := c.classifyAll d.name d.routines

end Classifier

end FlowCheck.Purity
