/-
  FlowCheck.Purity.Analysis — the effect of every node.

  The value of a node is its own effect; which nodes have a value at all says which are reached.
  Stores are only passed on, empty, for that purpose. The effect of a body is the join of the
  effects of its nodes: nodes that are not reached do not count.
-/

import FlowCheck.Analysis.Solver
import FlowCheck.Purity.Label

namespace FlowCheck.Purity

structure Impurity where
  cause : Cause
  /-- The properties the node has all the same. -/
  effect : Properties
  deriving DecidableEq, Repr

structure Callees where
  declared : SortedMap String Label
  /-- What the others are taken to be. -/
  assumed : Properties

namespace Callees

variable (c : Callees)

def effect (callee : String) : Properties :=
  match c.declared.find? callee with
  | some label => label.properties
  | none => c.assumed

/-- The effect of an operation and what it would be blamed on. -/
def impurity? : Operation → Option Impurity
  | .assign (.field ..) _ => some ⟨.assignField, .impure⟩
  | .storeElement .. => some ⟨.assignArray, .impure⟩
  | .allocate .. => some ⟨.objectCreation, ⟨false, true⟩⟩
  | .call callee .. => if (c.effect callee).isPure then none else some ⟨.call, c.effect callee⟩
  | .handler .. => some ⟨.handler, ⟨false, true⟩⟩
  | _ => none

def transfer : Transfer Properties Impurity := fun node sit =>
  let impurity := c.impurity? node.operation
  { outflow := match node.operation with
      | .raise _ => .same .unreachable
      | _ => .same sit.store
    thrown := if node.operation.mayThrow then some sit.store else none
    value := some ((impurity.map (·.effect)).getD .pure)
    facts := impurity.toList }

def analyze (limits : Limits) (g : Flowgraph) : Result Properties Impurity :=
  g.analyze c.transfer .blank limits

end Callees

/-- The join of the effects of all nodes that were reached. -/
def effectOf (g : Flowgraph) (result : Result Properties Impurity) : Properties :=
  Domain.joinAll (g.nodes.toList.filterMap fun n => (result.node n.id).value)

end FlowCheck.Purity
