/-
  FlowCheck.Proofs.Liveness — which blocks and nodes a run reaches.

  Execution may get to a block (`Live`) from the entry along edges that the nodes of the source
  open: an edge of a handler if a node that may throw is not cut off by a raise, any other edge if
  no node raises. It may get to a node of such a block unless a raise comes before it (`LiveNode`).

  For a steady transfer function that is all there is to reachability, whatever the values:
  - a visit from a reachable input lets out reachable stores along the open edges only, and reaches
    the nodes before and at the first raise (`exit_sweep`, `before_sweep`);
  - in every state the visited blocks are live, and their records say so (`Traced`);
  - with nothing pending every live block has been visited (`Final.visited_iff`).
-/

import FlowCheck.Proofs.FixedPoint

namespace FlowCheck

namespace Flowgraph

variable (g : Flowgraph)

def raisesAt (n : NodeId) : Bool := (g.node? n).any (·.operation.raises)

def mayThrowAt (n : NodeId) : Bool := (g.node? n).any (·.operation.mayThrow)

/-- `n` is one of `l` and no raise comes before it. -/
def RunsIn (l : List NodeId) (n : NodeId) : Prop :=
  ∃ earlier later, l = earlier ++ n :: later ∧ ∀ m ∈ earlier, g.raisesAt m = false

/-- The nodes of `b` can lead out along edges of this kind. -/
def Opens (b : BlockId) : EdgeKind → Prop
  | .exceptional => ∃ n, g.RunsIn (g.nodesOf b) n ∧ g.mayThrowAt n = true
  | _ => ∀ n ∈ g.nodesOf b, g.raisesAt n = false

inductive Live : BlockId → Prop where
  | entry : Live g.entry
  | edge {e : Edge} : e ∈ g.edges → Live e.source → g.Opens e.source e.kind → Live e.target

def LiveNode (n : NodeId) : Prop := ∃ b, g.Live b ∧ g.RunsIn (g.nodesOf b) n

variable {g}

theorem runsIn_cons {n k : NodeId} {l : List NodeId} :
    g.RunsIn (n :: l) k ↔ k = n ∨ g.raisesAt n = false ∧ g.RunsIn l k := by
  constructor
  · intro h
    obtain ⟨earlier, later, split, clear⟩ := h
    cases earlier with
    | nil => exact .inl (List.cons.inj split).1.symm
    | cons m earlier =>
      obtain ⟨rfl, rest⟩ := List.cons.inj split
      exact .inr ⟨clear _ List.mem_cons_self, earlier, later, rest, fun m hm => clear m (List.mem_cons_of_mem _ hm)⟩
  · intro h
    rcases h with rfl | ⟨fine, earlier, later, rfl, clear⟩
    · exact ⟨[], l, rfl, fun _ h => by cases h⟩
    · refine ⟨n :: earlier, later, rfl, fun m hm => ?_⟩
      rcases List.mem_cons.mp hm with rfl | hm
      · exact fine
      · exact clear m hm

theorem RunsIn.mem {n : NodeId} {l : List NodeId} (h : g.RunsIn l n) : n ∈ l := by
  obtain ⟨earlier, later, rfl, -⟩ := h
  simp

end Flowgraph

namespace Solver

variable {V F : Type} [Domain V] [DecidableEq V] {p : Solver V F}

/-! ## Reachable stores in a sweep -/

theorem merged_reach {out : Outflow V} {α : Bool} (ht : out.whenTrue.isReachable = α)
    (hf : out.whenFalse.isReachable = α) : out.merged.isReachable = α := by
  cases out with
  | same s => exact ht
  | split t f =>
    simp only [Outflow.whenTrue, Outflow.whenFalse] at ht hf
    rw [Outflow.merged, Store.isReachable_join, ht, hf, Bool.or_self]

section

variable (hτ : p.transfer.Steady p.plan.graph)

include hτ

/-- From a store as reachable as `α`, a node reaches what is after it unless it raises, and its
handlers if it may throw. -/
theorem nextEffect_reach {w : Sweep V F} {n : NodeId} {node : Node} (hn : p.plan.graph.node? n = some node)
    {α : Bool} (h : w.outflow.merged.isReachable = α) (handlers : Store V) :
    (p.nextEffect w n).outflow.whenTrue.isReachable = (α && !p.plan.graph.raisesAt n) ∧
      (p.nextEffect w n).outflow.whenFalse.isReachable = (α && !p.plan.graph.raisesAt n) ∧
      ((p.nextEffect w n).seenBy handlers).isReachable
        = (handlers.isReachable || α && p.plan.graph.mayThrowAt n) := by
  have raises : p.plan.graph.raisesAt n = node.operation.raises := by simp [Flowgraph.raisesAt, hn]
  have throws : p.plan.graph.mayThrowAt n = node.operation.mayThrow := by simp [Flowgraph.mayThrowAt, hn]
  subst h
  rw [nextEffect_eq]
  cases hm : w.outflow.merged with
  | unreachable =>
    rw [Flowgraph.effectAt_unreachable]
    simp [Outflow.whenTrue, Outflow.whenFalse, Effect.seenBy]
  | known facts =>
    have effect : p.plan.graph.effectAt p.transfer (tableValue w.nodes) n (.known facts) =
        p.transfer node ⟨p.plan.graph, .known facts, tableValue w.nodes⟩ := by
      unfold Flowgraph.effectAt; simp only [hn]
    obtain ⟨whenTrue, whenFalse, throwing, thrown⟩ := hτ node (.known facts) (tableValue w.nodes) rfl
    rw [effect, raises, throws, whenTrue, whenFalse, ← throwing]
    refine ⟨rfl, rfl, ?_⟩
    unfold Effect.seenBy
    cases ht : (p.transfer node ⟨p.plan.graph, .known facts, tableValue w.nodes⟩).thrown with
    | none => simp
    | some t => simp [Store.isReachable_join, thrown t ht]

theorem sweepNode_reach {w : Sweep V F} {n : NodeId} {l : List NodeId} (h : Ready p.plan.graph (n :: l) w.nodes)
    {α : Bool} (ht : w.outflow.whenTrue.isReachable = α) (hf : w.outflow.whenFalse.isReachable = α) :
    (p.sweepNode w n).outflow.whenTrue.isReachable = (α && !p.plan.graph.raisesAt n) ∧
      (p.sweepNode w n).outflow.whenFalse.isReachable = (α && !p.plan.graph.raisesAt n) ∧
      (p.sweepNode w n).exceptional.isReachable = (w.exceptional.isReachable || α && p.plan.graph.mayThrowAt n) ∧
      ((p.sweepNode w n).nodes.get n.index).before.isReachable = α := by
  obtain ⟨node, hn⟩ := h.head_eq
  have merged := merged_reach ht hf
  obtain ⟨whenTrue, whenFalse, exceptional⟩ := nextEffect_reach hτ hn merged w.exceptional
  have before := congrArg NodeRecord.before h.get_head
  rw [before, sweepNode_eq hn]
  exact ⟨whenTrue, whenFalse, exceptional, merged⟩

/-- Normal and branch exits are as reachable as the start if nothing raises. -/
theorem exits_foldl {l : List NodeId} {w : Sweep V F} (h : Ready p.plan.graph l w.nodes) {α : Bool}
    (ht : w.outflow.whenTrue.isReachable = α) (hf : w.outflow.whenFalse.isReachable = α) {k : EdgeKind}
    (hk : k ≠ .exceptional) :
    ((l.foldl p.sweepNode w).exit.along k).isReachable = true ↔
      α = true ∧ ∀ n ∈ l, p.plan.graph.raisesAt n = false := by
  induction l generalizing w α with
  | nil =>
    cases k with
    | normal => simp [Sweep.exit, BlockExit.along, merged_reach ht hf]
    | whenTrue => simp [Sweep.exit, BlockExit.along, ht]
    | whenFalse => simp [Sweep.exit, BlockExit.along, hf]
    | exceptional => exact absurd rfl hk
  | cons n l ih =>
    obtain ⟨whenTrue, whenFalse, -, -⟩ := sweepNode_reach hτ h ht hf
    rw [List.foldl_cons, ih h.tail whenTrue whenFalse]
    simp [and_assoc]

/-- Handlers see something if a node that is run may throw. -/
theorem exceptional_foldl {l : List NodeId} {w : Sweep V F} (h : Ready p.plan.graph l w.nodes) {α : Bool}
    (ht : w.outflow.whenTrue.isReachable = α) (hf : w.outflow.whenFalse.isReachable = α) :
    (l.foldl p.sweepNode w).exceptional.isReachable = true ↔
      w.exceptional.isReachable = true ∨
        α = true ∧ ∃ n, p.plan.graph.RunsIn l n ∧ p.plan.graph.mayThrowAt n = true := by
  induction l generalizing w α with
  | nil => simp [Flowgraph.RunsIn]
  | cons n l ih =>
    obtain ⟨whenTrue, whenFalse, exceptional, -⟩ := sweepNode_reach hτ h ht hf
    rw [List.foldl_cons, ih h.tail whenTrue whenFalse, exceptional]
    simp only [Flowgraph.runsIn_cons, Bool.or_eq_true, Bool.and_eq_true, Bool.not_eq_true', or_and_right,
      exists_or, exists_eq_left, and_assoc, exists_and_left]
    tauto

/-- The store before a node is reachable if the node is run. -/
theorem before_foldl {l : List NodeId} {w : Sweep V F} (h : Ready p.plan.graph l w.nodes) {α : Bool}
    (ht : w.outflow.whenTrue.isReachable = α) (hf : w.outflow.whenFalse.isReachable = α) {n : NodeId}
    (hn : n ∈ l) :
    ((l.foldl p.sweepNode w).nodes.get n.index).before.isReachable = true ↔
      α = true ∧ p.plan.graph.RunsIn l n := by
  induction l generalizing w α with
  | nil => cases hn
  | cons k l ih =>
    obtain ⟨whenTrue, whenFalse, -, before⟩ := sweepNode_reach hτ h ht hf
    rw [Flowgraph.runsIn_cons]
    by_cases e : n = k
    · subst e
      rw [List.foldl_cons, get_foldl_ne (List.nodup_cons.mp h.nodup).1, before]
      simp
    · rw [List.foldl_cons, ih h.tail whenTrue whenFalse ((List.mem_cons.mp hn).resolve_left e)]
      simp [e, and_assoc]

section

variable {b : BlockId} {input : Store V} {t : Slots (NodeRecord V F)}
  (size : t.size = p.plan.graph.nodes.size) (live : input.isReachable = true)

include size live

theorem exit_sweep (k : EdgeKind) :
    ((p.sweep b input t ()).exit.along k).isReachable = true ↔ p.plan.graph.Opens b k := by
  have ready := ready_nodesOf size b
  by_cases hk : k = .exceptional
  · subst hk
    have := exceptional_foldl (w := { memory := (), nodes := t, outflow := .same input }) hτ ready live live
    simpa [sweep, Sweep.exit, BlockExit.along, Flowgraph.Opens] using this
  · have := exits_foldl (w := { memory := (), nodes := t, outflow := .same input }) hτ ready live live hk
    cases k with
    | exceptional => exact absurd rfl hk
    | _ => simpa [sweep, Flowgraph.Opens] using this

theorem before_sweep {n : NodeId} (hn : n ∈ p.plan.graph.nodesOf b) :
    ((p.sweep b input t ()).nodes.get n.index).before.isReachable = true ↔
      p.plan.graph.RunsIn (p.plan.graph.nodesOf b) n := by
  have := before_foldl (w := { memory := (), nodes := t, outflow := .same input }) hτ (ready_nodesOf size b) live live hn
  simpa [sweep] using this

end

end

/-! ## Visited blocks are live -/

structure Traced (p : Solver V F) (s : State V F) : Prop where
  live : ∀ b, s.visited b = true → p.plan.graph.Live b
  exit : ∀ b, s.visited b = true → ∀ k, ((s.exit b).along k).isReachable = true ↔ p.plan.graph.Opens b k
  before : ∀ b, s.visited b = true → ∀ n ∈ p.plan.graph.nodesOf b,
    (s.record n).before.isReachable = true ↔ p.plan.graph.RunsIn (p.plan.graph.nodesOf b) n
  /-- The record of a node of a visited block is an effect of its operation. -/
  effect : ∀ b, s.visited b = true → ∀ n ∈ p.plan.graph.nodesOf b, ∃ look,
    s.record n = .of (s.record n).before (p.plan.graph.effectAt p.transfer look n (s.record n).before)

variable {s s' : State V F} {b : BlockId} {input : Store V}

omit [DecidableEq V] in
theorem SameAnswers.traced [DecidableEq V] (same : SameAnswers s s') (h : p.Traced s) : p.Traced s' := by
  have records : s'.record = s.record := by funext n; rw [State.record, same.nodes]; rfl
  have exits : s'.exit = s.exit := by funext c; rw [State.exit, same.blocks]; rfl
  constructor
  · exact fun c hc => h.live c (by rwa [← same.visited])
  · rw [exits]; exact fun c hc => h.exit c (by rwa [← same.visited])
  · rw [records]; exact fun c hc => h.before c (by rwa [← same.visited])
  · rw [records]; exact fun c hc => h.effect c (by rwa [← same.visited])

/-- A block that something flows into is live. -/
theorem Traced.live_of_incoming (h : p.Traced s) (shape : Shape p s)
    (reached : (p.incoming s b).isReachable = true) : p.plan.graph.Live b := by
  rcases incoming_reachable_iff.mp reached with ⟨rfl, -⟩ | ⟨e, he, rfl, out⟩
  · exact .entry
  · have visited : s.visited e.source = true := by
      by_contra away
      rw [State.exit, shape.unvisited _ (by simpa using away), BlockExit.along_empty] at out
      cases out
    exact .edge he (h.live _ visited) ((h.exit _ visited _).mp out)

theorem traced_invariant (hp : p.Planned) (hτ : p.transfer.Steady p.plan.graph) :
    Invariant p fun s => Shape p s ∧ p.Traced s where
  start := by
    have away : ∀ b, p.start.visited b ≠ true := fun b => by simp [State.visited, start]
    exact ⟨p.start_shape, fun b hb => absurd hb (away b), fun b hb => absurd hb (away b),
      fun b hb => absurd hb (away b), fun b hb => absurd hb (away b)⟩
  idle _ h taken _ := ⟨taken.shape h.1, taken.sameAnswers.traced h.2⟩
  visit {s s' b input} shape h taken live _ := by
    have before := taken.sameAnswers.traced h.2
    have placed := taken.placed
    have reached : p.plan.graph.Live b := by
      rcases taken.input_cases h.1 with e | ⟨visited, -⟩
      · exact h.2.live_of_incoming h.1 (e ▸ live)
      · exact h.2.live b visited
    have other : ∀ c, (p.visit b input s').visited c = true → c ≠ b → s'.visited c = true := fun c hc e =>
      ((visited_visit hp shape placed c).mp hc).resolve_left e
    have own : ∀ {c n}, c ≠ b → n ∈ p.plan.graph.nodesOf c → n ∉ p.plan.graph.nodesOf b := fun e hc hb =>
      e (Flowgraph.block_unique hc hb)
    refine ⟨visit_shape hp shape placed live, fun c hc => ?_, fun c hc => ?_, fun c hc n hn => ?_,
      fun c hc n hn => ?_⟩
    · by_cases e : c = b
      · exact e ▸ reached
      · exact before.live c (other c hc e)
    · rw [exit_visit shape placed]
      by_cases e : c = b
      · subst e
        rw [if_pos rfl]
        exact exit_sweep hτ shape.nodes live
      · rw [if_neg e]
        exact before.exit c (other c hc e)
    · by_cases e : c = b
      · subst e
        rw [State.record, nodes_visit]
        exact before_sweep hτ shape.nodes live hn
      · rw [record_visit (own e hn)]
        exact before.before c (other c hc e) n hn
    · by_cases e : c = b
      · subst e
        rw [State.record, nodes_visit]
        obtain ⟨_, record⟩ := exists_effect_sweep _ _ shape.nodes hn
        exact record
      · rw [record_visit (own e hn)]
        exact before.effect c (other c hc e) n hn

theorem after_traced (hp : p.Planned) (hτ : p.transfer.Steady p.plan.graph) (k : Nat) : p.Traced (p.after k) :=
  ((traced_invariant hp hτ).after hp k).2

/-! ## Live blocks are visited -/

section

variable {t : State V F} (final : p.Final t) (traced : p.Traced t) (entered : p.initial.isReachable = true)

include final traced entered

/-- Something flows into every live block, and it has been visited. -/
theorem Final.of_live (h : p.plan.graph.Live b) : t.visited b = true ∧ (p.incoming t b).isReachable = true := by
  have visited : ∀ c, (p.incoming t c).isReachable = true → t.visited c = true := fun c flows => by
    have reachable : p.incoming t c ≠ .unreachable := fun none_ => by rw [none_] at flows; cases flows
    have placed : c ∈ p.order := by
      by_contra out
      exact reachable (final.shape.incoming_unplaced out)
    have idle : p.rankOf c ∉ t.pending := by simp [final.quiet]
    exact (((final.settled c placed).resolve_left idle).resolve_left reachable).1
  suffices flows : (p.incoming t b).isReachable = true from ⟨visited b flows, flows⟩
  induction h with
  | entry => exact incoming_reachable_iff.mpr (.inl ⟨rfl, entered⟩)
  | edge he _ opens ih =>
    exact incoming_reachable_iff.mpr (.inr ⟨_, he, rfl, (traced.exit _ (visited _ ih) _).mpr opens⟩)

/-- The result accounts for every live block. -/
theorem Final.solvedAt_live (h : p.plan.graph.Live b) : SolvedAt p.plan.graph p.transfer p.initial p.solve b :=
  final.solvedAt fun away => by
    have flows := (final.of_live traced entered h).2
    rw [away] at flows
    cases flows

theorem Final.visited_iff : t.visited b = true ↔ p.plan.graph.Live b :=
  ⟨traced.live b, fun h => (final.of_live traced entered h).1⟩

/-- The solver reaches exactly the live blocks. -/
theorem Final.reaches_iff : p.solve.reaches b = true ↔ p.plan.graph.Live b := by
  rw [← final.visited_iff traced entered, final.result]
  exact final.shape.reached_iff b

/-- The store before a node is reachable if the node is live, for placed and unplaced nodes. -/
theorem Final.before_iff (n : NodeId) : (p.solve.node n).before.isReachable = true ↔ p.plan.graph.LiveNode n := by
  rw [final.result]
  constructor
  · intro reachable
    have reached : (t.record n).before.isReachable = true := reachable
    rcases final.shape.record_cases n with ⟨b, hb, visited⟩ | empty
    · exact ⟨b, traced.live b visited, (traced.before b visited n hb).mp reached⟩
    · rw [empty] at reached
      cases reached
  · intro h
    obtain ⟨b, live, runs⟩ := h
    exact (traced.before b (final.of_live traced entered live).1 n runs.mem).mpr runs

end

end Solver

end FlowCheck
