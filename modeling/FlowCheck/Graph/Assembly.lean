/-
  FlowCheck.Graph.Assembly — building a graph block by block.

  An assembly starts with its entry block. The two exits are made when first asked for and shared
  from then on. Ids are handed out by position, so an assembly never mislabels anything; whether
  its edges and operands make sense is left to the check that `build` runs.
-/

import FlowCheck.Graph.Flowgraph

namespace FlowCheck

structure Assembly where
  draft : Draft
  exit : Option BlockId := none
  exceptionalExit : Option BlockId := none
  deriving Repr

namespace Assembly

def start (name : String) : Assembly :=
  { draft := { name, entry := ⟨0⟩, blocks := #[{ id := ⟨0⟩, role := .entry }] } }

variable (a : Assembly)

def entry : BlockId := a.draft.entry

def addBlock (role : BlockRole := .regular) : BlockId × Assembly :=
  let id := BlockId.ofIndex a.draft.blocks.size
  (id, { a with draft := { a.draft with blocks := a.draft.blocks.push { id, role } } })

def exitBlock : BlockId × Assembly :=
  match a.exit with
  | some b => (b, a)
  | none => let (b, a) := a.addBlock .exit; (b, { a with exit := some b })

def exceptionalExitBlock : BlockId × Assembly :=
  match a.exceptionalExit with
  | some b => (b, a)
  | none => let (b, a) := a.addBlock .exceptionalExit; (b, { a with exceptionalExit := some b })

/-- Appends a node to `block`, unless there is no such block. -/
def push? (block : BlockId) (operation : Operation) (location : Location := .unknown) :
    Option (NodeId × Assembly) :=
  if a.draft.hasBlock block then
    let id := NodeId.ofIndex a.draft.nodes.size
    some (id, { a with draft := { a.draft with
      nodes := a.draft.nodes.push { id, operation, location }
      blocks := a.draft.blocks.modify block.index fun b => { b with nodes := b.nodes ++ [id] } } })
  else none

def addEdge (source target : BlockId) (kind : EdgeKind) : Assembly :=
  { a with draft := { a.draft with edges := a.draft.edges ++ [{ source, target, kind }] } }

def branch (source whenTrue whenFalse : BlockId) : Assembly :=
  (a.addEdge source whenTrue .whenTrue).addEdge source whenFalse .whenFalse

def build : Except Defect Flowgraph := Flowgraph.ofDraft a.draft

end Assembly

end FlowCheck
