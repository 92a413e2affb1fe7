/-
  FlowCheck.Domain.Qualified — a runtime type together with a qualifier.

  Types form a flat order under "not known"; qualifiers come from any domain. The least element
  has no type at all: it describes a value that cannot exist. Each type has a least value of its
  own besides.
-/

import FlowCheck.Domain.Basic

namespace FlowCheck

inductive ValueType where
  | int | text | bool
  | reference (name : String)
  /-- Not known, or different types on different ways. -/
  | unknown
  deriving DecidableEq, Repr, Inhabited

namespace ValueType

/-- Equal types stay; anything else is not known. -/
def join (a b : ValueType) : ValueType := if a = b then a else .unknown

def isSubtypeOf (a b : ValueType) : Bool := a = b || b = .unknown

def display : ValueType → String
  | .int => "int"
  | .text => "text"
  | .bool => "bool"
  | .reference name => name
  | .unknown => "unknown"

def rank : ValueType → Nat
  | .int => 0
  | .text => 1
  | .bool => 2
  | .reference _ => 3
  | .unknown => 4

/-- The name of a reference type; empty otherwise. -/
def referenceName : ValueType → String
  | .reference name => name
  | _ => ""

/-- By kind, references by name. -/
instance : Ord ValueType := ⟨compareLex (compareOn rank) (compareOn referenceName)⟩

end ValueType

/-- What is known of one value: that there is none, or its type and qualifier. -/
inductive Qualified (Q : Type) where
  | never
  | typed (type : ValueType) (qualifier : Q)
  deriving DecidableEq, Repr, Inhabited

namespace Qualified

variable {Q : Type}

def type? : Qualified Q → Option ValueType
  | .never => none
  | .typed type _ => some type

variable [Domain Q]

def leastOf (type : ValueType) : Qualified Q := .typed type Domain.bottom

def qualifier : Qualified Q → Q
  | .never => Domain.bottom
  | .typed _ q => q

def withQualifier (v : Qualified Q) (q : Q) : Qualified Q :=
  match v with
  | .never => .never
  | .typed type _ => .typed type q

def combine (op : Q → Q → Q) : Qualified Q → Qualified Q → Qualified Q
  | .never, x | x, .never => x
  | .typed s p, .typed t q => .typed (s.join t) (op p q)

def below : Qualified Q → Qualified Q → Bool
  | .never, _ => true
  | _, .never => false
  | .typed s p, .typed t q => s.isSubtypeOf t && Domain.below p q

instance : Domain (Qualified Q) where
  bottom := .never
  top := .typed .unknown Domain.top
  join := combine Domain.join
  below := below
  widen := combine Domain.widen

end Qualified

end FlowCheck
