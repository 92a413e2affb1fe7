/-
  FlowCheck.Graph.Order — the depth-first walk from the entry.

  The walk follows edges in the order they were declared. Blocks are finished after everything
  they lead to, so the list of finished blocks, latest first, is a reverse postorder: in a graph
  without cycles each block comes after all its reachable predecessors. An edge into a block that
  is still open closes a cycle; its target is a loop head.

  The walk needs no bound: a step opens an unseen block, or uses up an edge, or closes a block.
-/

import FlowCheck.Graph.Flowgraph

namespace FlowCheck

/-- An open block, with the targets not yet followed. -/
structure Walk.Frame where
  block : BlockId
  ahead : List BlockId

structure Walk where
  unseen : List BlockId
  /-- Open blocks, innermost first. -/
  path : List Walk.Frame
  /-- Closed blocks, latest first. -/
  finished : List BlockId := []
  /-- Targets of the edges found to close a cycle. -/
  heads : List BlockId := []

namespace Walk

def isOpen (w : Walk) (b : BlockId) : Bool := w.path.any (·.block == b)

def work (path : List Frame) : Nat := path.foldr (fun frame rest => frame.ahead.length + 1 + rest) 0

def run (g : Flowgraph) (w : Walk) : Walk :=
  match _path : w.path with
  | [] => w
  | ⟨b, []⟩ :: below => run g { w with path := below, finished := b :: w.finished }
  | ⟨b, t :: ahead⟩ :: below =>
    if t ∈ w.unseen then
      run g { w with unseen := w.unseen.erase t, path := ⟨t, g.targets t⟩ :: ⟨b, ahead⟩ :: below }
    else if w.isOpen t then
      run g { w with path := ⟨b, ahead⟩ :: below, heads := t :: w.heads }
    else
      run g { w with path := ⟨b, ahead⟩ :: below }
termination_by (w.unseen.length, work w.path)
decreasing_by
  · exact Prod.Lex.right _ (by simp [work, _path])
  · rename_i seen
    have := List.length_erase_of_mem seen
    have := List.length_pos_of_mem seen
    exact Prod.Lex.left _ _ (by omega)
  · exact Prod.Lex.right _ (by simp [work, _path])
  · exact Prod.Lex.right _ (by simp [work, _path])

end Walk

namespace Flowgraph

variable (g : Flowgraph)

def walk : Walk :=
  Walk.run g { unseen := g.blockIds.erase g.entry, path := [⟨g.entry, g.targets g.entry⟩] }

/-- The blocks reachable from the entry, each before those it leads to unless a cycle prevents it. -/
def reversePostorder : List BlockId := g.walk.finished

/-- The blocks that close a cycle of the walk, in id order. -/
def loopHeads : List BlockId := g.blockIds.filter (· ∈ g.walk.heads)

end Flowgraph

end FlowCheck
