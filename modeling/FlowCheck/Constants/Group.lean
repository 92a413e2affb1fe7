/-
  FlowCheck.Constants.Group — closed sets of symbolic constants.

  Constants that share a group name form a closed set. Its first constant decides the type, the
  pattern and what is shown as the group's location; the others must agree with it and have values
  of their own. Whether a group of consecutive values has a gap is known only at the end of a run.
-/

import FlowCheck.Diagnostic
import FlowCheck.Program
import FlowCheck.SortedMap

namespace FlowCheck.Constants

/-- The values taken in a group. An integer is never equal to a text. -/
inductive GroupValues where
  | integers (values : SortedSet Int)
  | texts (values : SortedSet String)
  deriving DecidableEq

namespace GroupValues

def emptyOf : ValueType → GroupValues
  | .text => .texts .empty
  | _ => .integers .empty

def contains : GroupValues → Literal → Bool
  | .integers s, .int v => s.contains v.toInt
  | .texts s, .text v => s.contains v
  | _, _ => false

def insert : GroupValues → Literal → GroupValues
  | .integers s, .int v => .integers (s.insert v.toInt ())
  | .texts s, .text v => .texts (s.insert v ())
  | values, _ => values

def size : GroupValues → Nat
  | .integers s => s.size
  | .texts s => s.size

/-- The integers form one run: as many of them as from the least to the greatest. Texts always do. -/
def isConsecutive : GroupValues → Bool
  | .integers s =>
    match s.keys.head?, s.keys.getLast? with
    | some least, some greatest => greatest - least + 1 = s.size
    | _, _ => true
  | .texts _ => true

end GroupValues

inductive GroupStatus where
  /-- It has no accepted constant. -/
  | unseen
  /-- It may still get constants. -/
  | open
  /-- Its values were checked for gaps. -/
  | validated
  deriving DecidableEq, Repr, Inhabited

def GroupStatus.name : GroupStatus → String
  | .unseen => "unseen"
  | .open => "open"
  | .validated => "validated"

structure Group where
  name : String
  type : ValueType
  pattern : Pattern
  values : GroupValues
  status : GroupStatus
  /-- Where the first constant is declared. -/
  location : Location
  /-- Declaration and name of the accepted constants, in order. -/
  members : List (String × String)
  deriving DecidableEq

namespace Group

/-- The group a first constant would found, before the constant is in it. -/
def foundedBy (name : String) (f : Field) : Group :=
  { name, type := f.type, pattern := f.pattern, values := .emptyOf f.type, status := .open, location := f.location
    members := [] }

def accept (g : Group) (declaration : String) (f : Field) (value : Literal) : Group :=
  { g with values := g.values.insert value, members := g.members ++ [(declaration, f.name)] }

def hasGap (g : Group) : Bool := g.pattern == .consecutive && !g.values.isConsecutive

def close (g : Group) : Group := { g with status := .validated }

def gapDiagnostic (g : Group) : Diagnostic :=
  { location := g.location
    kind := .constant .nonconsecutive
    args := [g.name]
    context := g.members.head?.map (·.1) }

end Group

/-- Whether `v` is 1, 2, 4, 8 and so on: it shares no bit with its predecessor. -/
def isPowerOfTwo (v : Int64) : Bool := !(v ≤ 0 || v &&& (v - 1) != 0)

def contribution? (f : Field) : Option Literal :=
  match f.type, f.initializer with
  | .int, some (.int v) => some (.int v)
  | .text, some (.text v) => some (.text v)
  | _, _ => none

structure Refusal where
  fault : ConstantFault
  args : List String
  deriving DecidableEq, Repr

/-- The first rule that forbids `f` to join group `name`, whose accepted constants, if it has any,
are those of `g`; otherwise the value it contributes. -/
def admissible (name : String) (g : Option Group) (f : Field) : Except Refusal Literal := do
  unless f.type == .int || f.type == .text do
    throw ⟨.unsupportedType, [f.type.display]⟩
  match g with
  | some g =>
    unless f.type == g.type do throw ⟨.typeConflict, [f.type.display]⟩
    unless f.pattern == g.pattern do throw ⟨.patternConflict, [g.pattern.name, f.pattern.name]⟩
  | none =>
    if f.type == .text && f.pattern.isNumeric then throw ⟨.patternNotApplicable, [f.pattern.name]⟩
  let some value := contribution? f | throw ⟨.valueMissing, [f.name]⟩
  if g.any (·.values.contains value) then
    throw ⟨.duplicatedValue, [value.display, name]⟩
  if f.pattern == .flags then
    if let .int v := value then
      unless isPowerOfTwo v do throw ⟨.notPowerOfTwo, [value.display]⟩
  return value

end FlowCheck.Constants
