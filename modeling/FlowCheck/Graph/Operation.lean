/-
  FlowCheck.Graph.Operation — what a node of a control-flow graph does.

  Nodes are in three-address form: an operand is the id of the node that computes it, so an
  analysis looks up the value it found for that node.
-/

import FlowCheck.Literal
import FlowCheck.Location
import FlowCheck.Place

namespace FlowCheck

structure NodeId where
  number : UInt32
  deriving DecidableEq, Repr, Inhabited

namespace NodeId

def index (n : NodeId) : Nat := n.number.toNat

def ofIndex (i : Nat) : NodeId := ⟨UInt32.ofNat i⟩

def display (n : NodeId) : String := s!"n{n.number}"

end NodeId

inductive BinaryOp where
  | add | sub | mul | div | rem
  | eq | ne | lt | le | gt | ge
  | and | or
  | bitAnd | bitOr | bitXor | shl | shr
  /-- Joining of texts. -/
  | concat
  deriving DecidableEq, Repr, Inhabited

namespace BinaryOp

/-- Yields a boolean from any two operands. -/
def isComparison : BinaryOp → Bool
  | .eq | .ne | .lt | .le | .gt | .ge => true
  | _ => false

/-- Short-circuit connective. -/
def isLogical : BinaryOp → Bool
  | .and | .or => true
  | _ => false

/-- Fails when the divisor is zero. -/
def mayThrow : BinaryOp → Bool
  | .div | .rem => true
  | _ => false

end BinaryOp

inductive UnaryOp where
  | neg | not | bitNot
  deriving DecidableEq, Repr, Inhabited

inductive Operation where
  | literal (value : Literal)
  | read (place : Place)
  | assign (target : Place) (value : NodeId)
  | loadElement (array index : NodeId)
  | storeElement (array index value : NodeId)
  | binary (op : BinaryOp) (lhs rhs : NodeId)
  | unary (op : UnaryOp) (operand : NodeId)
  /-- Invocation of a routine by name. -/
  | call (callee : String) (receiver : Option NodeId) (args : List NodeId)
  /-- Creation of an object or array. -/
  | allocate (type : String) (args : List NodeId)
  /-- Test of one label against the value switched on. -/
  | caseTest (scrutinee label : NodeId)
  /-- Start of a handler that binds `parameter` to what was raised. -/
  | handler (parameter : String) (exception : Option String)
  /-- Return from the routine. -/
  | leave (value : Option NodeId)
  | raise (value : NodeId)
  deriving DecidableEq, Repr, Inhabited

namespace Operation

/-- The nodes whose values are consumed, in evaluation order. -/
def operands : Operation → List NodeId
  | .literal _ | .read _ | .handler .. => []
  | .assign _ value | .raise value => [value]
  | .loadElement array index => [array, index]
  | .storeElement array index value => [array, index, value]
  | .binary _ lhs rhs => [lhs, rhs]
  | .unary _ operand => [operand]
  | .call _ receiver args => receiver.toList ++ args
  | .allocate _ args => args
  | .caseTest scrutinee label => [scrutinee, label]
  | .leave value => value.toList

/-- Whether evaluation can leave for an exception handler. -/
def mayThrow : Operation → Bool
  | .call .. | .allocate .. | .loadElement .. | .storeElement .. | .raise _ => true
  | .binary op _ _ => op.mayThrow
  | _ => false

def isConditional : Operation → Bool
  | .caseTest .. | .read _ | .literal (.bool _) | .call .. => true
  | .binary op _ _ => op.isComparison || op.isLogical
  | .unary op _ => op == .not
  | _ => false

end Operation

structure Node where
  id : NodeId
  operation : Operation
  location : Location := .unknown
  deriving DecidableEq, Repr, Inhabited

end FlowCheck
