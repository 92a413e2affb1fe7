/-
  FlowCheck.Analysis.Solver — iterating an analysis to a fixed point.

  Blocks whose answer may be out of date are pending; the solver always takes the one that comes
  first in reverse postorder.
  - The input of a block is the join of the stores on its incoming edges, and of the initial store
    if it is the entry.
  - A loop head that was visited before keeps what it had: its new input is joined in, and widened
    in once `widenDelay` joins have changed it.
  - A block is visited if its input is reachable and differs from the recorded one, or if it is
    stale: the value of an operand from outside changed since its last visit.
  - A visit runs the nodes in order. If the stores leaving the block changed, the blocks they lead
    to become pending; for every node whose value changed, the visited blocks that read it become
    stale and pending.
  - A visit beyond `maxVisits` is not made; the run ends without having converged.

  Either a turn makes a visit, of which there are only so many, or it takes a block off the pending
  ones: `run` ends by itself.
-/

import FlowCheck.Analysis.Readers
import FlowCheck.Analysis.Result
import FlowCheck.Analysis.Transfer
import FlowCheck.Graph.Order

namespace FlowCheck

structure Plan where
  graph : Flowgraph
  /-- The reachable blocks, in reverse postorder. -/
  order : Array BlockId
  /-- Position of a block in `order`. -/
  rank : Slots Nat
  isHead : Slots Bool
  /-- By node: the blocks that read it. -/
  readers : Slots (List BlockId)

def Plan.of (g : Flowgraph) : Plan :=
  let order := g.reversePostorder.toArray
  let heads := g.loopHeads
  { graph := g
    order
    rank := .tabulate g.blocks.size order.size fun i => (order.idxOf? (.ofIndex i)).getD order.size
    isHead := .tabulate g.blocks.size false fun i => .ofIndex i ∈ heads
    readers := g.readerTable }

structure Solver (V F : Type) (σ : Type := Unit) where
  plan : Plan
  client : Client V F σ
  /-- What the client remembers at first. -/
  memory : σ
  /-- The store at the entry. -/
  initial : Store V
  /-- Changes a loop head may join in before it widens. -/
  widenDelay : Nat
  /-- Block visits after which a run is given up. -/
  maxVisits : Nat

/-- What the solver remembers of a block between visits. -/
structure Progress where
  visited : Bool := false
  /-- An operand from outside changed since the last visit. -/
  stale : Bool := false
  /-- Changes joined in without widening. -/
  joins : Nat := 0
  deriving DecidableEq, Repr, Inhabited

namespace Solver

structure State (V F : Type) (σ : Type := Unit) where
  memory : σ
  blocks : Slots (BlockRecord V)
  nodes : Slots (NodeRecord V F)
  progress : Slots Progress
  /-- Ranks of the pending blocks, ascending. -/
  pending : List Nat
  stats : Stats := {}

def insertRank (r : Nat) : List Nat → List Nat
  | [] => [r]
  | q :: rest => if r < q then r :: q :: rest else if r = q then q :: rest else q :: insertRank r rest

variable {V F σ : Type} [Domain V] [DecidableEq V] (p : Solver V F σ)

def start : State V F σ :=
  { memory := p.memory
    blocks := .filled p.plan.graph.blocks.size {}
    nodes := .filled p.plan.graph.nodes.size {}
    progress := .filled p.plan.graph.blocks.size {}
    pending := [p.plan.rank.get p.plan.graph.entry.index] }

/-! ## The input of a block -/

/-- The stores flowing into `b`: the initial one at the entry, then one per incoming edge. -/
def inflow (s : State V F σ) (b : BlockId) : List (Store V) :=
  (if b = p.plan.graph.entry then [p.initial] else [])
    ++ (p.plan.graph.predecessors b).map fun e => (s.blocks.get e.source.index).exit.along e.kind

def incoming (s : State V F σ) (b : BlockId) : Store V := Domain.joinAll (p.inflow s b)

/-- The input `b` would be visited with, and the run with a join or widening of a loop head counted. -/
def intake (b : BlockId) (s : State V F σ) : Store V × State V F σ :=
  let incoming := p.incoming s b
  let progress := s.progress.get b.index
  if p.plan.isHead.get b.index && progress.visited then
    let previous := (s.blocks.get b.index).input
    let joined := Domain.join previous incoming
    if joined = previous then (joined, s)
    else if progress.joins < p.widenDelay then
      (joined, { s with progress := s.progress.set b.index { progress with joins := progress.joins + 1 } })
    else
      (Domain.widen previous joined, { s with stats := { s.stats with widenings := s.stats.widenings + 1 } })
  else (incoming, s)

/-- A visit to `b` with this input would change nothing. -/
def State.isCurrent (s : State V F σ) (b : BlockId) (input : Store V) : Bool :=
  let progress := s.progress.get b.index
  progress.visited && !progress.stale && input = (s.blocks.get b.index).input

/-! ## A visit -/

structure Sweep (V F : Type) (σ : Type := Unit) where
  memory : σ
  nodes : Slots (NodeRecord V F)
  /-- The stores after the last node run. -/
  outflow : Outflow V
  /-- Join of what handlers see of the nodes run. -/
  exceptional : Store V := .unreachable
  /-- Nodes whose value is not what it was. -/
  changed : List NodeId := []
  transfers : Nat := 0

/-- Runs one node. After a node that does not complete, the rest is cleared instead. -/
def sweepNode (w : Sweep V F σ) (n : NodeId) : Sweep V F σ :=
  let old := (w.nodes.get n.index).value
  match w.outflow.merged, p.plan.graph.node? n with
  | .unreachable, _ | _, none =>
    { w with
      nodes := w.nodes.set n.index {}
      outflow := .same .unreachable
      changed := if old.isSome then n :: w.changed else w.changed }
  | store, some node =>
    let answer := p.client w.memory node
      { graph := p.plan.graph, store, valueOf := fun m => ((w.nodes.get m.index).value).getD Domain.top }
    let effect := answer.1
    let after := effect.outflow.merged
    { memory := answer.2
      nodes := w.nodes.set n.index { before := store, after, value := effect.value, facts := effect.facts }
      outflow := effect.outflow
      exceptional :=
        match effect.thrown with
        | some thrown => Domain.join w.exceptional (Domain.join thrown after)
        | none => w.exceptional
      changed := if old = effect.value then w.changed else n :: w.changed
      transfers := w.transfers + 1 }

def sweep (b : BlockId) (input : Store V) (nodes : Slots (NodeRecord V F)) (memory : σ) : Sweep V F σ :=
  (p.plan.graph.nodesOf b).foldl p.sweepNode { memory, nodes, outflow := .same input }

def Sweep.exit (w : Sweep V F σ) : BlockExit V where
  normal := w.outflow.merged
  whenTrue := w.outflow.whenTrue
  whenFalse := w.outflow.whenFalse
  exceptional := w.exceptional

def enqueue (s : State V F σ) (b : BlockId) : State V F σ :=
  { s with pending := insertRank (p.plan.rank.get b.index) s.pending }

/-- Makes `b` stale and pending, if it was visited before. -/
def wake (s : State V F σ) (b : BlockId) : State V F σ :=
  let progress := s.progress.get b.index
  if progress.visited then
    p.enqueue { s with progress := s.progress.set b.index { progress with stale := true } } b
  else s

/-- Visits `b` with `input`, and makes pending whatever the visit put out of date. -/
def visit (b : BlockId) (input : Store V) (s : State V F σ) : State V F σ :=
  let w := p.sweep b input s.nodes s.memory
  let outdated := w.exit ≠ (s.blocks.get b.index).exit
  let s : State V F σ :=
    { s with
      memory := w.memory
      blocks := s.blocks.set b.index { input, exit := w.exit }
      nodes := w.nodes
      progress := s.progress.modify b.index fun q => { q with visited := true, stale := false }
      stats := { s.stats with visits := s.stats.visits + 1, transfers := s.stats.transfers + w.transfers } }
  let s := (w.changed.flatMap (p.plan.readers.get ·.index)).foldl p.wake s
  if outdated then (p.plan.graph.targets b).foldl p.enqueue s else s

/-! ## The run -/

inductive Turn (V F : Type) (σ : Type := Unit) where
  /-- Nothing is pending. -/
  | done
  /-- A pending block needs no visit. -/
  | idle (s : State V F σ)
  /-- A pending block is to be visited. -/
  | visit (b : BlockId) (input : Store V) (s : State V F σ)

def turn (s : State V F σ) : Turn V F σ :=
  match s.pending with
  | [] => .done
  | r :: rest =>
    match p.plan.order[r]? with
    | none => .idle { s with pending := rest }
    | some b =>
      match p.intake b { s with pending := rest } with
      | (input, s') => if !input.isReachable || s'.isCurrent b input then .idle s' else .visit b input s'

theorem intake_pending (b : BlockId) (s : State V F σ) : (p.intake b s).2.pending = s.pending := by
  unfold intake; grind

theorem intake_visits (b : BlockId) (s : State V F σ) : (p.intake b s).2.stats.visits = s.stats.visits := by
  unfold intake; grind

theorem turn_idle {s s' : State V F σ} (h : p.turn s = .idle s') :
    s'.stats.visits = s.stats.visits ∧ s.pending.length = s'.pending.length + 1 := by
  unfold turn at h
  split at h
  · cases h
  · rename_i r rest pending
    split at h
    · cases h; simp [pending]
    · rename_i b _
      have visits := p.intake_visits b { s with pending := rest }
      have left := p.intake_pending b { s with pending := rest }
      split at h
      rename_i taken
      rw [taken] at visits left
      simp only at left
      split at h <;> cases h
      exact ⟨visits, by simp [pending, left]⟩

theorem turn_visit {s s' : State V F σ} {b : BlockId} {input : Store V} (h : p.turn s = .visit b input s') :
    s'.stats.visits = s.stats.visits := by
  unfold turn at h
  split at h
  · cases h
  · rename_i r rest _
    split at h
    · cases h
    · rename_i b _
      have visits := p.intake_visits b { s with pending := rest }
      split at h
      rename_i taken
      rw [taken] at visits
      split at h <;> cases h
      exact visits

omit [Domain V] [DecidableEq V] in
theorem stats_wake (s : State V F σ) (b : BlockId) : (p.wake s b).stats = s.stats := by
  unfold wake enqueue; grind

omit [Domain V] [DecidableEq V] in
theorem stats_foldl_wake (l : List BlockId) (s : State V F σ) : (l.foldl p.wake s).stats = s.stats := by
  induction l generalizing s with
  | nil => rfl
  | cons b l ih => rw [List.foldl_cons, ih, stats_wake]

omit [Domain V] [DecidableEq V] in
theorem stats_foldl_enqueue (l : List BlockId) (s : State V F σ) : (l.foldl p.enqueue s).stats = s.stats := by
  induction l generalizing s with
  | nil => rfl
  | cons b l ih => rw [List.foldl_cons, ih]; rfl

theorem visit_visits (b : BlockId) (input : Store V) (s : State V F σ) :
    (p.visit b input s).stats.visits = s.stats.visits + 1 := by
  unfold visit
  simp only
  split
  · rw [stats_foldl_enqueue, stats_foldl_wake]
  · rw [stats_foldl_wake]

/-- Steps until nothing is pending or no visit is left. -/
def run (s : State V F σ) : State V F σ :=
  match _turn : p.turn s with
  | .done => s
  | .idle s' => run s'
  | .visit b input s' =>
    if p.maxVisits ≤ s'.stats.visits then { s' with stats := { s'.stats with converged := false } }
    else run (p.visit b input s')
termination_by (p.maxVisits - s.stats.visits, s.pending.length)
decreasing_by
  · obtain ⟨visits, left⟩ := p.turn_idle _turn
    rw [visits]
    exact Prod.Lex.right _ (by omega)
  · have visits := p.turn_visit _turn
    exact Prod.Lex.left _ _ (by rw [p.visit_visits]; omega)

def State.result (s : State V F σ) : Result V F := { blocks := s.blocks, nodes := s.nodes, stats := s.stats }

def solve : Result V F := (p.run p.start).result

end Solver

namespace Flowgraph

variable {V F σ : Type} (g : Flowgraph)

/-- The problem an analysis poses on a graph, if it starts with this memory. -/
def problemWith (client : Client V F σ) (memory : σ) (initial : Store V) (widenDelay maxVisits : Nat) :
    Solver V F σ :=
  { plan := .of g, client, memory, initial, widenDelay, maxVisits }

def problem (transfer : Transfer V F) (initial : Store V) (widenDelay maxVisits : Nat) : Solver V F :=
  g.problemWith transfer.client () initial widenDelay maxVisits

variable [Domain V] [DecidableEq V]

/-- Runs an analysis over a graph from an initial store and with a memory, and returns the memory too. -/
def analyzeWith (client : Client V F σ) (memory : σ) (initial : Store V) (limits : Limits) : Result V F × σ :=
  let p := g.problemWith client memory initial limits.widenDelay.toNat limits.maxVisits.toNat
  let last := p.run p.start
  (last.result, last.memory)

def analyze (transfer : Transfer V F) (initial : Store V) (limits : Limits) : Result V F :=
  (g.analyzeWith transfer.client () initial limits).1

end Flowgraph

end FlowCheck
