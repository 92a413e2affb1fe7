/-
  FlowCheck.Analysis.Readers — who must be told when a node's value changes.

  A block reads a node if one of its nodes has it as an operand. An operand placed earlier in the
  same block does not count: the block computes it anew before it is used.

  One pass over the uses of operands fills the table. It keeps the positions of all nodes in one
  table too, where a node of another block may well stand earlier, and a node of no block stands at
  zero; that is why positions are looked at only if the operand is placed in the block of the use.
-/

import FlowCheck.Graph.Flowgraph

namespace FlowCheck

/-- An operand, with the block and the position of the node that uses it. -/
structure Use where
  block : BlockId
  position : Nat
  operand : NodeId
  deriving DecidableEq, Repr

namespace Flowgraph

variable (g : Flowgraph)

def operandsOf (n : NodeId) : List NodeId := ((g.node? n).map (·.operation.operands)).getD []

/-- The nodes of all blocks, each with its position in its block. -/
def placed : List (NodeId × Nat) := g.blocks.toList.flatMap (·.nodes.zipIdx)

def positions : Slots Nat :=
  g.placed.foldl (fun t x => t.set x.1.index x.2) (.filled g.nodes.size 0)

def uses : List Use :=
  g.blocks.toList.flatMap fun B =>
    B.nodes.zipIdx.flatMap fun x => (g.operandsOf x.1).map fun m => ⟨B.id, x.2, m⟩

/-- The block of the use computes the operand before. -/
def isServed (positions : Slots Nat) (u : Use) : Bool :=
  g.blockOf u.operand = some u.block && positions.get u.operand.index < u.position

def noteUse (positions : Slots Nat) (t : Slots (List BlockId)) (u : Use) : Slots (List BlockId) :=
  if g.isServed positions u then t
  else t.modify u.operand.index fun l => if u.block ∈ l then l else l ++ [u.block]

/-- By node: the blocks to run again when its value changes. -/
def readerTable : Slots (List BlockId) := g.uses.foldl (g.noteUse g.positions) (.filled g.nodes.size [])

end Flowgraph

end FlowCheck
