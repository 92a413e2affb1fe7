/-
  FlowCheck.Graph.Draft — a control-flow graph as somebody describes it, and its check.

  Blocks of nodes joined by labelled edges. A block leaves by one normal edge, or by a true and a
  false edge decided by its last node; besides, it may have exceptional edges, taken when one of
  its nodes throws. `Draft.check` names the first fault, in this order.
  - There is a block. Every block and every node is labelled with its position. The entry exists.
  - Blocks list existing nodes, none of them twice.
  - Operands exist.
  - Edges join existing blocks, none of them twice.
  - Every block has both branch edges or neither; with them it has no normal edge, and its last
    node can be a condition.

  On its way it fills three tables, which a draft without faults is looked up in from then on
  (`Index`). It relies on them itself: a node is listed twice if its slot is taken, and what leaves
  a block is read off the table of outgoing edges.
-/

import FlowCheck.Graph.Operation
import FlowCheck.Slots

namespace FlowCheck

/-- Position of a block in its graph's block table. -/
structure BlockId where
  number : UInt32
  deriving DecidableEq, Repr, Inhabited

namespace BlockId

def index (b : BlockId) : Nat := b.number.toNat

def ofIndex (i : Nat) : BlockId := ⟨UInt32.ofNat i⟩

def display (b : BlockId) : String := s!"b{b.number}"

end BlockId

inductive BlockRole where
  | entry | regular
  /-- Where the routine returns. -/
  | exit
  /-- Where an uncaught exception leaves. -/
  | exceptionalExit
  deriving DecidableEq, Repr, Inhabited

inductive EdgeKind where
  | normal | whenTrue | whenFalse
  /-- Taken when a node of the source throws. -/
  | exceptional
  deriving DecidableEq, Repr, Inhabited

namespace EdgeKind

def word : EdgeKind → String
  | .normal => "Normal"
  | .whenTrue => "TrueBranch"
  | .whenFalse => "FalseBranch"
  | .exceptional => "Exceptional"

end EdgeKind

structure Edge where
  source : BlockId
  target : BlockId
  kind : EdgeKind := .normal
  deriving DecidableEq, Repr, Inhabited

structure Block where
  id : BlockId
  role : BlockRole := .regular
  nodes : List NodeId := []
  deriving DecidableEq, Repr, Inhabited

inductive Defect where
  | empty
  | missingEntry (entry : BlockId)
  | blockMislabelled (position : Nat) (found : BlockId)
  | nodeMislabelled (position : Nat) (found : NodeId)
  | unknownBlock (block : BlockId)
  | unknownNode (block : BlockId) (node : NodeId)
  | nodePlacedTwice (node : NodeId) (first second : BlockId)
  | unknownOperand (node operand : NodeId)
  | loneBranch (block : BlockId)
  | mixedSuccessors (block : BlockId)
  | notACondition (block : BlockId)
  | repeatedEdge (edge : Edge)
  deriving DecidableEq, Repr

def Defect.message : Defect → String
  | .empty => "graph has no blocks"
  | .missingEntry b => "entry block " ++ b.display ++ " does not exist"
  | .blockMislabelled i b => s!"block at position {i} is labelled " ++ b.display
  | .nodeMislabelled i n => s!"node at position {i} is labelled " ++ n.display
  | .unknownBlock b => "edge refers to unknown block " ++ b.display
  | .unknownNode b n => "block " ++ b.display ++ " refers to unknown node " ++ n.display
  | .nodePlacedTwice n b c => "node " ++ n.display ++ " appears in blocks " ++ b.display ++ " and " ++ c.display
  | .unknownOperand n o => "node " ++ n.display ++ " uses unknown operand " ++ o.display
  | .loneBranch b => "block " ++ b.display ++ " has only one branch edge"
  | .mixedSuccessors b => "block " ++ b.display ++ " mixes normal and branch successors"
  | .notACondition b => "block " ++ b.display ++ " branches but its last node cannot be a condition"
  | .repeatedEdge e =>
    "duplicate " ++ e.kind.word ++ " edge from " ++ e.source.display ++ " to " ++ e.target.display

/-- Unchecked contents of a graph. -/
structure Draft where
  /-- The routine the graph belongs to; may be empty. -/
  name : String := ""
  entry : BlockId := ⟨0⟩
  blocks : Array Block := #[]
  nodes : Array Node := #[]
  edges : List Edge := []
  deriving DecidableEq, Repr, Inhabited

/-- Where nodes are placed, and the edges around blocks. -/
structure Index where
  /-- By node: the block that lists it. -/
  homes : Slots (Option BlockId)
  /-- By block: the positions of the edges that leave it, ascending. -/
  outgoing : Slots (List Nat)
  /-- By block: the positions of the edges that enter it, ascending. -/
  incoming : Slots (List Nat)
  deriving DecidableEq, Inhabited

structure Links where
  seen : List Edge := []
  outgoing : Slots (List Nat)
  incoming : Slots (List Nat)

namespace Draft

variable (d : Draft)

def hasBlock (b : BlockId) : Bool := b.index < d.blocks.size

def hasNode (n : NodeId) : Bool := n.index < d.nodes.size

def placements : List (BlockId × NodeId) :=
  d.blocks.toList.flatMap fun b => b.nodes.map (b.id, ·)

def operandUses : List (NodeId × NodeId) :=
  d.nodes.toList.flatMap fun n => n.operation.operands.map (n.id, ·)

/-! ## The checks -/

def blockLabelDefect? : Option Defect :=
  d.blocks.toList.zipIdx.findSome? fun (b, i) => if b.id.index = i then none else some (.blockMislabelled i b.id)

def nodeLabelDefect? : Option Defect :=
  d.nodes.toList.zipIdx.findSome? fun (n, i) => if n.id.index = i then none else some (.nodeMislabelled i n.id)

def place (homes : Slots (Option BlockId)) (x : BlockId × NodeId) : Except Defect (Slots (Option BlockId)) :=
  if d.hasNode x.2 then
    match homes.get x.2.index with
    | some first => .error (.nodePlacedTwice x.2 first x.1)
    | none => .ok (homes.set x.2.index (some x.1))
  else .error (.unknownNode x.1 x.2)

def homes : Except Defect (Slots (Option BlockId)) := d.placements.foldlM d.place (.filled d.nodes.size none)

def operandDefect? : Option Defect :=
  d.operandUses.findSome? fun (n, o) => if d.hasNode o then none else some (.unknownOperand n o)

/-- Enters the edge at a position into the tables around its ends. -/
def link (t : Links) (x : Edge × Nat) : Except Defect Links :=
  if !d.hasBlock x.1.source then .error (.unknownBlock x.1.source)
  else if !d.hasBlock x.1.target then .error (.unknownBlock x.1.target)
  else if x.1 ∈ t.seen then .error (.repeatedEdge x.1)
  else .ok
    { seen := x.1 :: t.seen
      outgoing := t.outgoing.modify x.1.source.index (· ++ [x.2])
      incoming := t.incoming.modify x.1.target.index (· ++ [x.2]) }

def links : Except Defect Links :=
  d.edges.zipIdx.foldlM d.link { outgoing := .filled d.blocks.size [], incoming := .filled d.blocks.size [] }

def edgesAt (positions : List Nat) : List Edge := positions.filterMap (d.edges[·]?)

def endsInCondition (b : Block) : Bool :=
  match b.nodes.getLast?.bind fun n => d.nodes[n.index]? with
  | some n => n.operation.isConditional
  | none => false

def branchDefect? (outgoing : Slots (List Nat)) (b : Block) : Option Defect :=
  let kinds := (d.edgesAt (outgoing.get b.id.index)).map (·.kind)
  if kinds.contains .whenTrue != kinds.contains .whenFalse then some (.loneBranch b.id)
  else if kinds.contains .whenTrue && kinds.contains .normal then some (.mixedSuccessors b.id)
  else if kinds.contains .whenTrue && !d.endsInCondition b then some (.notACondition b.id)
  else none

def refuse : Option Defect → Except Defect Unit
  | some defect => .error defect
  | none => .ok ()

/-- The first fault, or the tables of a draft without one. -/
def check : Except Defect Index := do
  refuse (if d.blocks.isEmpty then some .empty else none)
  refuse d.blockLabelDefect?
  refuse d.nodeLabelDefect?
  refuse (if d.hasBlock d.entry then none else some (.missingEntry d.entry))
  let homes ← d.homes
  refuse d.operandDefect?
  let links ← d.links
  refuse (d.blocks.toList.findSome? (d.branchDefect? links.outgoing))
  return { homes, outgoing := links.outgoing, incoming := links.incoming }

end Draft

end FlowCheck
