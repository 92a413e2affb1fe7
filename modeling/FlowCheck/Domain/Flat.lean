/-
  FlowCheck.Domain.Flat — unrelated values between a bottom and a top.

  Joining two different values gives up and answers top, so no chain is longer than three.
-/

import FlowCheck.Domain.Basic

namespace FlowCheck

/-- Nothing, exactly one value, or anything. -/
inductive Flat (α : Type) where
  | bottom
  | value (a : α)
  | top
  deriving DecidableEq, Repr, Inhabited

namespace Flat

variable {α : Type}

def value? : Flat α → Option α
  | .value a => some a
  | _ => none

variable [DecidableEq α]

def join : Flat α → Flat α → Flat α
  | .bottom, x | x, .bottom => x
  | .value a, .value b => if a = b then .value a else .top
  | _, _ => .top

def below : Flat α → Flat α → Bool
  | .bottom, _ | _, .top => true
  | .value a, .value b => a = b
  | _, _ => false

instance : Domain (Flat α) where
  bottom := .bottom
  top := .top
  join := join
  below := below

end Flat

end FlowCheck
