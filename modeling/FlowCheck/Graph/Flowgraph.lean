/-
  FlowCheck.Graph.Flowgraph — checked control-flow graphs.

  A flowgraph is a draft together with the tables that its check came up with, so whoever holds one
  may follow its ids. `ofDraft_eq_ok_iff` says that reading the draft back gives what went in.
-/

import FlowCheck.Graph.Draft

namespace FlowCheck

/-- A draft without defects. -/
structure Flowgraph extends Draft where
  index : Index := toDraft.check.toOption.getD default
  checked : toDraft.check = .ok index

namespace Flowgraph

theorem ext_draft {g h : Flowgraph} (same : g.toDraft = h.toDraft) : g = h := by
  obtain ⟨d, index, checked⟩ := g
  obtain ⟨d', index', checked'⟩ := h
  cases same
  cases Except.ok.inj (checked.symm.trans checked')
  rfl

instance : DecidableEq Flowgraph := fun g h =>
  if e : g.toDraft = h.toDraft then isTrue (ext_draft e) else isFalse (fun e' => e (e' ▸ rfl))

def ofDraft (d : Draft) : Except Defect Flowgraph :=
  match h : d.check with
  | .error defect => .error defect
  | .ok index => .ok ⟨d, index, h⟩

theorem ofDraft_eq_ok_iff {d : Draft} {g : Flowgraph} : ofDraft d = .ok g ↔ g.toDraft = d := by
  unfold ofDraft
  constructor
  · intro h; split at h <;> cases h; rfl
  · rintro rfl
    split
    · rename_i h; rw [g.checked] at h; cases h
    · exact congrArg Except.ok (ext_draft rfl)

theorem ofDraft_eq_error_iff {d : Draft} {e : Defect} : ofDraft d = .error e ↔ d.check = .error e := by
  unfold ofDraft
  split <;> simp_all

variable (g : Flowgraph)

def block? (b : BlockId) : Option Block := g.blocks[b.index]?

def node? (n : NodeId) : Option Node := g.nodes[n.index]?

def nodesOf (b : BlockId) : List NodeId := ((g.block? b).map (·.nodes)).getD []

/-- The edges leaving `b`, in the order they were declared. -/
def successors (b : BlockId) : List Edge := g.edgesAt (g.index.outgoing.get b.index)

def predecessors (b : BlockId) : List Edge := g.edgesAt (g.index.incoming.get b.index)

def blockOf (n : NodeId) : Option BlockId := g.index.homes.get n.index

def isBranching (b : BlockId) : Bool := (g.successors b).any (·.kind == .whenTrue)

def blocksWithRole (r : BlockRole) : List BlockId :=
  (g.blocks.toList.filter (·.role == r)).map (·.id)

def targets (b : BlockId) : List BlockId := (g.successors b).map (·.target)

def blockIds : List BlockId := g.blocks.toList.map (·.id)

end Flowgraph

end FlowCheck
