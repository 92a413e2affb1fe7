/-
  FlowCheck.Session — one run of all checks.

  A session knows the declared fields and labels of everything registered so far, and what the
  checks found. Checking a declaration validates its constants, then follows its routines for
  misused constants, then labels them. Registering comes first, so that the order of declarations
  does not matter to what routines may refer to.
-/

import FlowCheck.Constants.Usage
import FlowCheck.Constants.Validator
import FlowCheck.Options
import FlowCheck.Purity.Classifier

namespace FlowCheck

structure Session where
  limits : Limits
  validator : Constants.Validator
  fields : Constants.FieldTable
  classifier : Purity.Classifier
  /-- Everything reported so far, in order. -/
  diagnostics : List Diagnostic

structure RunOutcome where
  diagnostics : List Diagnostic
  constants : Report Constants.Outcome
  purity : Report Purity.Label

namespace Session

def start (o : Options) : Session :=
  { limits := o.engine
    validator := .start
    fields := .empty
    classifier := .start o.engine o.purity.knownCallees
    diagnostics := [] }

variable (s : Session)

def registerDeclaration (d : Declaration) : Session :=
  { s with fields := Constants.FieldTable.register s.fields d, classifier := s.classifier.register d }

/-- Makes fields and declared labels known without checking anything. -/
def register (p : Program) : Session := p.declarations.foldl registerDeclaration s

def misuses (d : Declaration) : List Diagnostic :=
  d.routines.flatMap fun r => (Constants.Scope.check ⟨s.fields, d.name⟩ s.limits r).1

def checkDeclaration (d : Declaration) : Session :=
  let (constants, validator) := s.validator.validateDeclaration d
  let (purity, classifier) := s.classifier.classifyDeclaration d
  { s with validator, classifier, diagnostics := s.diagnostics ++ constants ++ s.misuses d ++ purity }

def checkProgram (p : Program) : Session := p.declarations.foldl checkDeclaration (s.register p)

def finish : RunOutcome :=
  let (gaps, constants) := s.validator.finish
  { diagnostics := s.diagnostics ++ gaps, constants, purity := s.classifier.report }

end Session

def Program.check (p : Program) (o : Options) : RunOutcome := ((Session.start o).checkProgram p).finish

end FlowCheck
