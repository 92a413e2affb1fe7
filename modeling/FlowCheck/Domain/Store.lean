/-
  FlowCheck.Domain.Store — what is known of every place at one program point.

  A store is unreachable, or it knows values for some places. A place it says nothing about may
  hold anything, so joining two stores keeps only what both know, and the store that knows nothing
  is the greatest. Values that say nothing are not recorded; then equal stores know equal things.
-/

import FlowCheck.Domain.Basic
import FlowCheck.Place
import FlowCheck.SortedMap

namespace FlowCheck

inductive Store (V : Type) where
  | unreachable
  | known (facts : SortedMap Place V)
  deriving DecidableEq, Inhabited

namespace Store

variable {V : Type}

/-- Reachable, and nothing known. -/
def blank : Store V := .known .empty

def isReachable : Store V → Bool
  | .unreachable => false
  | .known _ => true

def find? : Store V → Place → Option V
  | .unreachable, _ => none
  | .known m, p => m.find? p

def places : Store V → List Place
  | .unreachable => []
  | .known m => m.keys

def size (s : Store V) : Nat := s.places.length

def forget : Store V → Place → Store V
  | .unreachable, _ => .unreachable
  | .known m, p => .known (m.erase p)

/-- Forgets every field: somebody else may have written to them. -/
def forgetFields : Store V → Store V
  | .unreachable => .unreachable
  | .known m => .known (m.filter fun p _ => !p.isField)

variable [Domain V]

/-- The value a place can hold: anything if nothing is recorded, none at an unreachable point. -/
def valueOf : Store V → Place → V
  | .unreachable, _ => Domain.bottom
  | .known m, p => (m.find? p).getD Domain.top

variable [DecidableEq V]

def informative (v : V) : Option V := if Domain.isTop v then none else some v

/-- Records a value; nothing happens at an unreachable point. -/
def set : Store V → Place → V → Store V
  | .unreachable, _, _ => .unreachable
  | .known m, p, v => .known (if Domain.isTop v then m.erase p else m.insert p v)

/-- Pointwise on the places both know; an unreachable store gives way to the other. -/
def combine (op : V → V → V) : Store V → Store V → Store V
  | .unreachable, s | s, .unreachable => s
  | .known a, .known b => .known (a.intersectWith (fun v w => informative (op v w)) b)

/-- `a` knows at least as much as `b` about every place. -/
def below : Store V → Store V → Bool
  | .unreachable, _ => true
  | _, .unreachable => false
  | .known a, .known b => b.entries.all fun e => (a.find? e.1).any (Domain.below · e.2)

instance : Domain (Store V) where
  bottom := .unreachable
  top := blank
  join := combine Domain.join
  below := below
  widen := combine Domain.widen

end Store

end FlowCheck
