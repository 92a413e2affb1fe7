/-
  FlowCheck.Domain.Basic — what an analysis may use as abstract values.

  An abstract domain is a join semilattice with a least and a greatest element and a widening. The
  operations are separate from their laws: the solver runs on any operations, and what is said
  about its answers assumes `LawfulDomain`.
-/

namespace FlowCheck

/-- The operations of an abstract domain. -/
class Domain (α : Type) where
  /-- The least element: no value at all. -/
  bottom : α
  /-- The greatest element: any value. -/
  top : α
  /-- Least upper bound. -/
  join : α → α → α
  /-- The order: everything the first describes, the second describes too. -/
  below : α → α → Bool
  /-- An upper bound of a recorded value and the next one, used where a chain must end. -/
  widen : α → α → α := join

namespace Domain

variable {α : Type} [Domain α] [DecidableEq α]

def isBottom (a : α) : Bool := a = bottom

def isTop (a : α) : Bool := a = top

def comparable (a b : α) : Bool := below a b || below b a

def joinAll (l : List α) : α := l.foldl join bottom

end Domain

class LawfulDomain (α : Type) [Domain α] : Prop where
  join_assoc (a b c : α) : Domain.join a (Domain.join b c) = Domain.join (Domain.join a b) c
  join_comm (a b : α) : Domain.join a b = Domain.join b a
  join_self (a : α) : Domain.join a a = a
  bottom_join (a : α) : Domain.join Domain.bottom a = a
  top_join (a : α) : Domain.join Domain.top a = (Domain.top : α)
  below_iff (a b : α) : Domain.below a b = true ↔ Domain.join a b = b
  widen_left (a b : α) : Domain.below a (Domain.widen a b) = true
  widen_right (a b : α) : Domain.below b (Domain.widen a b) = true

end FlowCheck
