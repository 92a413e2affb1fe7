/-
  FlowCheck.Constants.Usage — where values of different groups meet.

  The analysis follows tagged values through a routine and remembers, as facts of a node:
  - an operation, other than joining texts, on operands whose tags are not comparable;
  - a case label whose tag is not below that of the value switched on;
  - an assignment to a field of a value whose tag is not below the declared one.

  A field that the store says nothing about has its declared value. A test for equality teaches
  the side on which it holds: a local or expression compared with a value of a group has that
  group's tag there.
-/

import FlowCheck.Analysis.Solver
import FlowCheck.Constants.Tag
import FlowCheck.Diagnostic
import FlowCheck.Program

namespace FlowCheck.Constants

/-- Two values that must not meet, as they are shown. -/
structure Misuse where
  place : Mixing
  args : List String
  deriving DecidableEq, Repr

def Misuse.of (place : Mixing) (first second : TaggedValue) : Misuse :=
  ⟨place, [TaggedValue.display first, TaggedValue.display second]⟩

abbrev FieldTable := SortedMap Place TaggedValue

namespace FieldTable

/-- Adds the fields of a declaration; a field declared again counts as declared last. -/
def register (t : FieldTable) (d : Declaration) : FieldTable :=
  d.fields.foldl (fun t f => t.insert (.field d.name f.name) (.typed f.type (Tag.ofGroup f.group))) t

/-- The declared value of a field; the owner `this` is the declaration `current`. -/
def declared? (t : FieldTable) (current owner name : String) : Option TaggedValue :=
  t.find? (.field (if owner = "this" then current else owner) name)

end FieldTable

structure Scope where
  fields : FieldTable
  /-- The declaration whose routine is analysed. -/
  current : String

namespace Scope

variable (s : Scope)

/-- The declared value of a place, if it is a declared field. -/
def declared? : Place → Option TaggedValue
  | .field owner name => s.fields.declared? s.current owner name
  | _ => none

def read (store : Store TaggedValue) (p : Place) : TaggedValue :=
  match store.find? p with
  | some v => v
  | none => (s.declared? p).getD Domain.top

def literalValue : Literal → TaggedValue
  | .int _ => .plain .int
  | .text _ => .plain .text
  | .bool _ => .plain .bool
  | .null => Qualified.leastOf (.reference "null")

/-- The place a node reads, if a test may teach something about it. -/
def refinable? (g : Flowgraph) (n : NodeId) : Option Place :=
  match g.node? n with
  | some { operation := .read (.local name), .. } => some (.local name)
  | some { operation := .read (.expr text), .. } => some (.expr text)
  | _ => none

/-- What the store becomes where the value read by `operand` is known to equal `other`. -/
def learn (g : Flowgraph) (store : Store TaggedValue) (operand : NodeId) (other : TaggedValue) :
    Store TaggedValue :=
  match Tag.group? other.qualifier, refinable? g operand with
  | some _, some p =>
    store.set p <| match (store.valueOf p).type? with
      | some type => .typed type other.qualifier
      | none => other
  | _, _ => store

def binaryOutflow (sit : Situation TaggedValue) (op : BinaryOp) (lhs rhs : NodeId) (left right : TaggedValue) :
    Outflow TaggedValue :=
  let refined := learn sit.graph (learn sit.graph sit.store lhs right) rhs left
  match op with
  | .eq => .split refined sit.store
  | .ne => .split sit.store refined
  | _ => .same sit.store

def binaryValue (op : BinaryOp) (left right : TaggedValue) : TaggedValue :=
  if op.isComparison || op.isLogical then .plain .bool
  else if op = .concat then .plain .text
  else Domain.join left right

def factUnless (fine : Bool) (m : Misuse) : List Misuse := if fine then [] else [m]

def transfer : Transfer TaggedValue Misuse := fun node sit =>
  let store := sit.store
  match node.operation with
  | .literal v => { outflow := .same store, value := some (literalValue v) }
  | .read p => { outflow := .same store, value := some (s.read store p) }
  | .assign target value =>
    let assigned := sit.valueOf value
    { outflow := .same (store.set target assigned)
      value := some assigned
      facts := match s.declared? target with
        | some declared =>
          factUnless (Domain.below assigned.qualifier declared.qualifier) (.of .assignment assigned declared)
        | none => [] }
  | .loadElement .. => { outflow := .same store, thrown := some store, value := some Domain.top }
  | .storeElement .. => { outflow := .same store, thrown := some store }
  | .binary op lhs rhs =>
    let left := sit.valueOf lhs
    let right := sit.valueOf rhs
    { outflow := binaryOutflow sit op lhs rhs left right
      thrown := if op.mayThrow then some store else none
      value := some (binaryValue op left right)
      facts := factUnless (op = .concat || Domain.comparable left.qualifier right.qualifier)
        (.of .binary left right) }
  | .unary op operand =>
    { outflow := .same store
      value := some (if op = .not then .plain .bool else sit.valueOf operand) }
  | .call .. =>
    let store := store.forgetFields
    { outflow := .same store, thrown := some store, value := some Domain.top }
  | .allocate type _ =>
    { outflow := .same store, thrown := some store, value := some (.plain (.reference type)) }
  | .caseTest scrutinee label =>
    let switched := sit.valueOf scrutinee
    let tested := sit.valueOf label
    { outflow := .same store
      value := some (.plain .bool)
      facts := factUnless (Domain.below tested.qualifier switched.qualifier) (.of .switch tested switched) }
  | .handler parameter exception =>
    { outflow := .same
        (store.set (.local parameter) (.plain (.reference (exception.getD "Throwable")))) }
  | .leave _ => { outflow := .same store }
  | .raise _ => { outflow := .same .unreachable, thrown := some store }

end Scope

def Routine.entryStore (r : Routine) : Store TaggedValue :=
  r.parameters.foldl (fun s p => s.set (.local p.name) (.typed p.type (Tag.ofGroup p.group))) .blank

def Scope.analyze (s : Scope) (limits : Limits) (r : Routine) : Option (Result TaggedValue Misuse) :=
  r.body.map fun g => g.analyze s.transfer (Routine.entryStore r) limits

def misuseDiagnostics (g : Flowgraph) (context : String) (result : Result TaggedValue Misuse) : List Diagnostic :=
  result.allFacts.map fun (n, m) =>
    { location := ((g.node? n).map (·.location)).getD .unknown
      kind := .mixing m.place
      args := m.args
      context := some context }

def Scope.check (s : Scope) (limits : Limits) (r : Routine) :
    List Diagnostic × Option (Result TaggedValue Misuse) :=
  match r.body, s.analyze limits r with
  | some g, some result => (misuseDiagnostics g (r.qualifiedName s.current) result, some result)
  | _, _ => ([], none)

end FlowCheck.Constants
