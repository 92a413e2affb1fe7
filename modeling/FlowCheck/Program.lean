/-
  FlowCheck.Program — the programs that are checked.

  A program is a list of declarations; a declaration has fields and routines. Routine bodies come
  as control-flow graphs: nothing here reads source text.
-/

import FlowCheck.Domain.Qualified
import FlowCheck.Graph.Flowgraph
import FlowCheck.Purity.Label

namespace FlowCheck

inductive Pattern where
  /-- Distinct. -/
  | unconstrained
  /-- Integers without a gap. -/
  | consecutive
  /-- Distinct powers of two. -/
  | flags
  deriving DecidableEq, Repr, Inhabited

namespace Pattern

def all : List Pattern := [.unconstrained, .consecutive, .flags]

def name : Pattern → String
  | .unconstrained => "unconstrained"
  | .consecutive => "consecutive"
  | .flags => "flags"

def isNumeric (p : Pattern) : Bool := p != .unconstrained

end Pattern

structure Modifiers where
  isPublic : Bool := false
  isStatic : Bool := false
  isFinal : Bool := false
  deriving DecidableEq, Repr, Inhabited

namespace Modifiers

def constant : Modifiers := ⟨true, true, true⟩

def isConstant (m : Modifiers) : Bool := m.isPublic && m.isStatic && m.isFinal

end Modifiers

structure Field where
  name : String
  type : ValueType
  /-- The group of constants it belongs to, if any. -/
  group : Option String := none
  pattern : Pattern := .unconstrained
  /-- The literal it is initialized with, if there is one. -/
  initializer : Option Literal := none
  modifiers : Modifiers := {}
  location : Location := .unknown
  deriving DecidableEq, Repr, Inhabited

def Literal.type : Literal → ValueType
  | .int _ => .int
  | .text _ => .text
  | .bool _ => .bool
  | .null => .unknown

namespace Field

def constant (name group : String) (pattern : Pattern) (value : Literal) : Field :=
  { name, type := value.type, group := some group, pattern, initializer := some value, modifiers := .constant }

def isGroupedConstant (f : Field) : Bool := f.group.isSome && f.modifiers.isConstant

end Field

structure Parameter where
  name : String
  type : ValueType
  group : Option String := none
  deriving DecidableEq, Repr, Inhabited

structure Routine where
  name : String
  /-- The key it is reported under, if it is not to be derived. -/
  givenSignature : Option String := none
  parameters : List Parameter := []
  body : Option Flowgraph := none
  declaredPurity : Option Purity.Label := none
  location : Location := .unknown
  deriving DecidableEq, Inhabited

/-- The key a routine is reported under, such as `add(int,int)`. -/
def Routine.signature (r : Routine) : String :=
  match r.givenSignature with
  | some s => s
  | none => r.name ++ "(" ++ ",".intercalate (r.parameters.map (·.type.display)) ++ ")"

def Routine.qualifiedName (declaration : String) (r : Routine) : String := declaration ++ "." ++ r.signature

structure Declaration where
  name : String
  fields : List Field := []
  routines : List Routine := []
  location : Location := .unknown
  deriving DecidableEq, Inhabited

def Declaration.field? (d : Declaration) (name : String) : Option Field := d.fields.find? (·.name == name)

structure Program where
  declarations : List Declaration := []
  deriving DecidableEq, Inhabited

def Program.declaration? (p : Program) (name : String) : Option Declaration :=
  p.declarations.find? (·.name == name)

end FlowCheck
