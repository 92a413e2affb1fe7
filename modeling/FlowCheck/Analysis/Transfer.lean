/-
  FlowCheck.Analysis.Transfer — what one node does to the abstract state.

  An analysis is a transfer function: from a node, the store before it and the values of other
  nodes, to the stores after it, the store its exception handlers see, the node's own value, and
  the facts the analysis wants to remember about the node.

  The solver works for any client that answers like a transfer function each time it is asked. A
  client may keep a memory, and answer differently for what it remembers.
-/

import FlowCheck.Domain.Store
import FlowCheck.Graph.Flowgraph

namespace FlowCheck

inductive Outflow (V : Type) where
  /-- One store for every successor. -/
  | same (store : Store V)
  /-- One store for each way a condition may turn out. -/
  | split (whenTrue whenFalse : Store V)
  deriving DecidableEq, Inhabited

namespace Outflow

variable {V : Type}

def whenTrue : Outflow V → Store V
  | .same s | .split s _ => s

def whenFalse : Outflow V → Store V
  | .same s | .split _ s => s

/-- The store if the condition, if any, is forgotten. -/
def merged [Domain V] [DecidableEq V] : Outflow V → Store V
  | .same s => s
  | .split t f => Domain.join t f

end Outflow

/-- What a transfer function is told. -/
structure Situation (V : Type) where
  graph : Flowgraph
  /-- The store before the node; never unreachable. -/
  store : Store V
  /-- The value last computed for a node; top if it has none. -/
  valueOf : NodeId → V

/-- What a transfer function answers. -/
structure Effect (V F : Type) where
  outflow : Outflow V
  /-- What handlers see, if the node can throw. -/
  thrown : Option (Store V) := none
  /-- The value of the node itself. -/
  value : Option V := none
  facts : List F := []

abbrev Transfer (V F : Type) := Node → Situation V → Effect V F

/-- An analysis with a memory, which it may change whenever it is applied. -/
abbrev Client (V F σ : Type) := σ → Node → Situation V → Effect V F × σ

def Client.rule {V F σ : Type} (f : Client V F σ) (m : σ) : Transfer V F := fun node sit => (f m node sit).1

def Transfer.client {V F : Type} (τ : Transfer V F) : Client V F Unit := fun m node sit => (τ node sit, m)

end FlowCheck
