/-
  FlowCheck.Diagnostic — what the checks report.

  A diagnostic is a kind with a stable dotted key, a location, and arguments for whoever words it.
-/

import FlowCheck.Location
import FlowCheck.Purity.Label

namespace FlowCheck

inductive ConstantFault where
  /-- Neither integer nor text. -/
  | unsupportedType
  /-- Another type than the group's. -/
  | typeConflict
  /-- Another pattern than the group's. -/
  | patternConflict
  /-- Text under a pattern for integers. -/
  | patternNotApplicable
  /-- A value the group already has. -/
  | duplicatedValue
  /-- No positive power of two. -/
  | notPowerOfTwo
  /-- A group of consecutive values with a gap. -/
  | nonconsecutive
  /-- No literal of the constant's type. -/
  | valueMissing
  deriving DecidableEq, Repr, Inhabited

inductive Mixing where
  /-- Operands of one operation. -/
  | binary
  /-- A case label and the value switched on. -/
  | switch
  /-- A value and the field it is assigned to. -/
  | assignment
  deriving DecidableEq, Repr, Inhabited

inductive DiagnosticKind where
  | constant (fault : ConstantFault)
  | mixing (place : Mixing)
  /-- A node that breaks a promise of determinism. -/
  | notDeterministic (cause : Purity.Cause)
  /-- A node that breaks a promise of leaving no trace. -/
  | notSideEffectFree (cause : Purity.Cause)
  deriving DecidableEq, Repr, Inhabited

namespace ConstantFault

def all : List ConstantFault :=
  [.unsupportedType, .typeConflict, .patternConflict, .patternNotApplicable, .duplicatedValue,
    .notPowerOfTwo, .nonconsecutive, .valueMissing]

def key : ConstantFault → String
  | .unsupportedType => "unsupported.constant.type"
  | .typeConflict => "constant.type.conflict"
  | .patternConflict => "fenum.pattern.conflict"
  | .patternNotApplicable => "fenum.pattern.not.applicable"
  | .duplicatedValue => "duplicated.constant.value"
  | .notPowerOfTwo => "not.powerof.two"
  | .nonconsecutive => "nonconsecutive.constant.values"
  | .valueMissing => "constant.value.missing"

end ConstantFault

def Mixing.key : Mixing → String
  | .binary => "binary.type.incompatible"
  | .switch => "switch.type.incompatible"
  | .assignment => "assignment.type.incompatible"

namespace DiagnosticKind

def all : List DiagnosticKind :=
  ConstantFault.all.map .constant ++ [Mixing.binary, .switch, .assignment].map .mixing
    ++ Purity.Cause.all.map .notDeterministic ++ Purity.Cause.all.map .notSideEffectFree

def key : DiagnosticKind → String
  | .constant fault => fault.key
  | .mixing place => place.key
  | .notDeterministic cause => "purity.not.deterministic." ++ cause.key
  | .notSideEffectFree cause => "purity.not.sideeffectfree." ++ cause.key

def ofKey? (key : String) : Option DiagnosticKind := all.find? (·.key == key)

def isConstantFault : DiagnosticKind → Bool
  | .constant _ => true
  | _ => false

end DiagnosticKind

structure Diagnostic where
  location : Location
  kind : DiagnosticKind
  /-- Arguments of the message, in order. -/
  args : List String := []
  /-- The declaration or routine it was raised in. -/
  context : Option String := none
  deriving DecidableEq, Repr, Inhabited

/-- One line: location, key, arguments in brackets, context in parentheses. -/
def Diagnostic.display (d : Diagnostic) : String :=
  d.location.display ++ ": " ++ d.kind.key
    ++ (if d.args.isEmpty then "" else " [" ++ ", ".intercalate d.args ++ "]")
    ++ (match d.context with
      | some context => " (" ++ context ++ ")"
      | none => "")

end FlowCheck
