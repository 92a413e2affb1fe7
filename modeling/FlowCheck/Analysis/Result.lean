/-
  FlowCheck.Analysis.Result — what a run of the solver leaves behind.

  Per block the store at its start and the stores leaving it, per node the stores around it, its
  value and its facts. Points that were never reached, or do not exist, answer with unreachable
  stores, no value and no facts.
-/

import FlowCheck.Domain.Store
import FlowCheck.Graph.Flowgraph
import FlowCheck.Slots

namespace FlowCheck

structure Limits where
  /-- Changes a loop head may join in before it widens. -/
  widenDelay : UInt64 := 0
  /-- Block visits after which a run is given up. -/
  maxVisits : UInt64 := 10000
  deriving DecidableEq, Repr, Inhabited

structure Stats where
  /-- Visits to blocks. -/
  visits : Nat := 0
  /-- Applications of the transfer function. -/
  transfers : Nat := 0
  /-- Widenings of the input of a loop head. -/
  widenings : Nat := 0
  /-- Whether the run ended by itself. -/
  converged : Bool := true
  deriving DecidableEq, Repr, Inhabited

structure BlockExit (V : Type) where
  normal : Store V := .unreachable
  whenTrue : Store V := .unreachable
  whenFalse : Store V := .unreachable
  /-- What handlers of the block see. -/
  exceptional : Store V := .unreachable
  deriving DecidableEq, Inhabited

def BlockExit.along {V : Type} (e : BlockExit V) : EdgeKind → Store V
  | .normal => e.normal
  | .whenTrue => e.whenTrue
  | .whenFalse => e.whenFalse
  | .exceptional => e.exceptional

structure BlockRecord (V : Type) where
  input : Store V := .unreachable
  exit : BlockExit V := {}
  deriving DecidableEq, Inhabited

structure NodeRecord (V F : Type) where
  before : Store V := .unreachable
  after : Store V := .unreachable
  value : Option V := none
  facts : List F := []
  deriving Inhabited

structure Result (V F : Type) where
  blocks : Slots (BlockRecord V)
  nodes : Slots (NodeRecord V F)
  stats : Stats

namespace Result

variable {V F : Type} (r : Result V F)

def block (b : BlockId) : BlockRecord V := r.blocks.get b.index

def node (n : NodeId) : NodeRecord V F := r.nodes.get n.index

def reaches (b : BlockId) : Bool := (r.block b).input.isReachable

def allFacts : List (NodeId × F) :=
  (List.range r.nodes.size).flatMap fun i => (r.nodes.get i).facts.map (NodeId.ofIndex i, ·)

end Result

end FlowCheck
