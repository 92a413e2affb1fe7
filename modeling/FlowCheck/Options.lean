/-
  FlowCheck.Options — the configuration of a run.

  Every option has a default. Switches may be set by name on top of what a configuration says; they
  are only ever switched on.
-/

import FlowCheck.Analysis.Result
import FlowCheck.Purity.Analysis

namespace FlowCheck

structure PurityOptions where
  assumeSideEffectFree : Bool := false
  assumeDeterministic : Bool := false
  assumePure : Bool := false
  /-- File of the purity report. -/
  report : String := "cf_output.json"
  /-- Labels of routines that are not part of the run. -/
  callees : SortedMap String Purity.Label := .empty
  deriving DecidableEq, Inhabited

namespace PurityOptions

variable (o : PurityOptions)

def assumesSideEffectFree : Bool := o.assumeSideEffectFree || o.assumePure

def assumesDeterministic : Bool := o.assumeDeterministic || o.assumePure

/-- What is granted to a routine that cannot be analysed. -/
def assumed : Purity.Properties := ⟨o.assumesDeterministic, o.assumesSideEffectFree⟩

def knownCallees : Purity.Callees := ⟨o.callees, o.assumed⟩

end PurityOptions

structure ConstantOptions where
  /-- File of the constants report. -/
  report : String := "constants_output.json"
  deriving DecidableEq, Inhabited

structure Options where
  purity : PurityOptions := {}
  constants : ConstantOptions := {}
  engine : Limits := {}
  deriving DecidableEq, Inhabited

namespace Options

def switchOn? (o : Options) : String → Option Options
  | "assumeSideEffectFree" => some { o with purity := { o.purity with assumeSideEffectFree := true } }
  | "assumeDeterministic" => some { o with purity := { o.purity with assumeDeterministic := true } }
  | "assumePure" => some { o with purity := { o.purity with assumePure := true } }
  | _ => none

/-- Sets switches in order; fails with the first name that is none. -/
def switchAll (o : Options) (names : List String) : Except String Options :=
  names.foldlM (fun o name => (o.switchOn? name).elim (.error name) .ok) o

end Options

end FlowCheck
