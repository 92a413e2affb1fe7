/-
  FlowCheck.Purity.Label — how pure a routine or a node is.

  Two properties: the same arguments give the same result, and the caller can see no trace. As a
  domain of effects the least element has both and the greatest has neither; a join keeps what
  both sides have.
-/

import FlowCheck.Domain.Basic

namespace FlowCheck.Purity

structure Properties where
  deterministic : Bool
  sideEffectFree : Bool
  deriving DecidableEq, Repr, Inhabited

namespace Properties

def pure : Properties := ⟨true, true⟩

def impure : Properties := ⟨false, false⟩

def isPure (p : Properties) : Bool := p.deterministic && p.sideEffectFree

/-- `p` has every property that `q` has. -/
def below (p q : Properties) : Bool :=
  (p.deterministic || !q.deterministic) && (p.sideEffectFree || !q.sideEffectFree)

instance : Domain Properties where
  bottom := pure
  top := impure
  join p q := ⟨p.deterministic && q.deterministic, p.sideEffectFree && q.sideEffectFree⟩
  below := below

end Properties

inductive Label where
  | pure | sideEffectFree | deterministic | impure
  deriving DecidableEq, Repr, Inhabited

namespace Label

def all : List Label := [.pure, .sideEffectFree, .deterministic, .impure]

def name : Label → String
  | .pure => "pure"
  | .sideEffectFree => "side-effect-free"
  | .deterministic => "deterministic"
  | .impure => "impure"

def ofProperties : Properties → Label
  | ⟨true, true⟩ => .pure
  | ⟨false, true⟩ => .sideEffectFree
  | ⟨true, false⟩ => .deterministic
  | ⟨false, false⟩ => .impure

def properties : Label → Properties
  | .pure => .pure
  | .sideEffectFree => ⟨false, true⟩
  | .deterministic => ⟨true, false⟩
  | .impure => .impure

@[simp] theorem ofProperties_properties (l : Label) : ofProperties l.properties = l := by
  cases l <;> rfl

@[simp] theorem properties_ofProperties (p : Properties) : (ofProperties p).properties = p := by
  obtain ⟨d, s⟩ := p
  cases d <;> cases s <;> rfl

end Label

inductive Cause where
  | assignField | assignArray | objectCreation | call | handler
  deriving DecidableEq, Repr, Inhabited

namespace Cause

def all : List Cause := [.assignField, .assignArray, .objectCreation, .call, .handler]

/-- Last part of the keys of the diagnostics it gives rise to. -/
def key : Cause → String
  | .assignField => "assign.field"
  | .assignArray => "assign.array"
  | .objectCreation => "object.creation"
  | .call => "call"
  | .handler => "catch"

end Cause

end FlowCheck.Purity
