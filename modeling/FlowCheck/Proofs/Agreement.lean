/-
  FlowCheck.Proofs.Agreement — the checks of a routine agree on what is reachable.

  The usage check decides for each operation by itself what handlers see; the effect check asks
  whether the operation may throw. Both transfer functions are steady, and the converged run of a
  steady transfer function reaches what execution may get to, whatever its values, stores, order
  of visits and widenings (`reaches_of_steady`): the live blocks, the point before every live node,
  and the point after it unless it raises. So the two runs reach the same points
  (`checks_reach_alike`), each under limits of its own.
-/

import FlowCheck.Proofs.Liveness
import FlowCheck.Purity.Classifier

namespace FlowCheck

variable {V F : Type} [Domain V] [DecidableEq V]

/-- A result reaches the points that execution may get to, and no others. -/
structure Result.ReachesLive (r : Result V F) (g : Flowgraph) : Prop where
  block : ∀ b, r.reaches b = true ↔ g.Live b
  before : ∀ n, (r.node n).before.isReachable = true ↔ g.LiveNode n
  after : ∀ n, (r.node n).after.isReachable = true ↔ g.LiveNode n ∧ g.raisesAt n = false

namespace Solver

variable {p : Solver V F} {t : State V F}

/-- What is recorded after a node of a visited block is reachable if the node is run and does not
raise. -/
theorem Traced.after_iff (hτ : p.transfer.Steady p.plan.graph) (traced : p.Traced t) {b : BlockId}
    (visited : t.visited b = true) {n : NodeId} (hn : n ∈ p.plan.graph.nodesOf b) :
    (t.record n).after.isReachable = true ↔
      (t.record n).before.isReachable = true ∧ p.plan.graph.raisesAt n = false := by
  obtain ⟨look, record⟩ := traced.effect b visited n hn
  obtain ⟨node, found, -⟩ := Flowgraph.node_of_mem hn
  have raises : p.plan.graph.raisesAt n = node.operation.raises := by simp [Flowgraph.raisesAt, found]
  have after := congrArg NodeRecord.after record
  cases before : (t.record n).before with
  | unreachable =>
    rw [before, Flowgraph.effectAt_unreachable] at after
    rw [after]
    simp [NodeRecord.of, Outflow.merged]
  | known facts =>
    have effect : p.plan.graph.effectAt p.transfer look n (.known facts) =
        p.transfer node ⟨p.plan.graph, .known facts, look⟩ := by
      unfold Flowgraph.effectAt; simp only [found]
    obtain ⟨whenTrue, whenFalse, -, -⟩ := hτ node (.known facts) look rfl
    rw [before, effect] at after
    rw [after, raises]
    simp [NodeRecord.of, merged_reach whenTrue whenFalse]

/-- The store after a node is reachable if the node is live and does not raise. -/
theorem Final.after_iff (hτ : p.transfer.Steady p.plan.graph) (final : p.Final t) (traced : p.Traced t)
    (entered : p.initial.isReachable = true) (n : NodeId) :
    (p.solve.node n).after.isReachable = true ↔
      p.plan.graph.LiveNode n ∧ p.plan.graph.raisesAt n = false := by
  rw [← final.before_iff traced entered, final.result]
  rcases final.shape.record_cases n with ⟨b, hn, visited⟩ | empty
  · exact traced.after_iff hτ visited hn
  · show (t.record n).after.isReachable = true ↔ (t.record n).before.isReachable = true ∧ _
    rw [empty]
    simp

end Solver

/-- The converged run of a steady transfer function reaches what execution may get to. -/
theorem reaches_of_steady [LawfulDomain V] {g : Flowgraph} {τ : Transfer V F} {initial : Store V}
    (hlocal : τ.Local g) (hτ : τ.Keeps Store.Canonical g) (steady : τ.Steady g) (hi : initial.Canonical)
    (entered : initial.isReachable = true) (limits : Limits)
    (h : (g.analyze τ initial limits).stats.converged = true) :
    (g.analyze τ initial limits).ReachesLive g := by
  let p := g.problem τ initial limits.widenDelay.toNat limits.maxVisits.toNat
  obtain ⟨k, final⟩ := Solver.final_of_converged (p := p) rfl hlocal hτ hi h
  have traced := Solver.after_traced (p := p) rfl steady k
  exact ⟨fun _ => final.reaches_iff traced entered, final.before_iff traced entered,
    final.after_iff steady traced entered⟩

/-! ## The two checks -/

namespace Result.ReachesLive

variable {W G : Type} {g : Flowgraph} {a : Result V F} {b : Result W G}

omit [Domain V] [DecidableEq V] in
/-- Results that reach what execution may get to reach the same blocks, and the same points around
nodes. -/
theorem alike (ha : a.ReachesLive g) (hb : b.ReachesLive g) :
    (∀ c, a.reaches c = b.reaches c) ∧
      ∀ n, ((a.node n).before = .unreachable ↔ (b.node n).before = .unreachable) ∧
        ((a.node n).after = .unreachable ↔ (b.node n).after = .unreachable) := by
  refine ⟨fun c => ?_, fun n => ⟨?_, ?_⟩⟩
  · exact Bool.eq_iff_iff.mpr ((ha.block c).trans (hb.block c).symm)
  · rw [← Store.not_isReachable_iff, ← Store.not_isReachable_iff, ← Bool.not_eq_true, ← Bool.not_eq_true]
    exact not_congr ((ha.before n).trans (hb.before n).symm)
  · rw [← Store.not_isReachable_iff, ← Store.not_isReachable_iff, ← Bool.not_eq_true, ← Bool.not_eq_true]
    exact not_congr ((ha.after n).trans (hb.after n).symm)

end Result.ReachesLive

/-- If both checks of a routine converge, the blocks they reach are the same, and so are the points
before and after nodes: those that execution may get to. -/
theorem checks_reach_alike (r : Routine) (g : Flowgraph) (body : r.body = some g) (scope : Constants.Scope)
    (limits : Limits) (classifier : Purity.Classifier) {usage : Result Constants.TaggedValue Constants.Misuse}
    {effects : Result Purity.Properties Purity.Impurity} (used : scope.analyze limits r = some usage)
    (labelled : classifier.analyze r = some effects) (settled : usage.stats.converged = true)
    (settled' : effects.stats.converged = true) :
    usage.ReachesLive g ∧ (∀ b, usage.reaches b = effects.reaches b) ∧
      ∀ n, ((usage.node n).before = .unreachable ↔ (effects.node n).before = .unreachable) ∧
        ((usage.node n).after = .unreachable ↔ (effects.node n).after = .unreachable) := by
  simp only [Constants.Scope.analyze, Purity.Classifier.analyze, body, Option.map_some, Option.some.injEq]
    at used labelled
  subst used labelled
  have reached := reaches_of_steady (scope.transfer_local g) (scope.transfer_keepsCanonical g)
    (scope.transfer_steady g) (entryStore_spec r).1 (entryStore_spec r).2 limits settled
  have reached' := reaches_of_steady (classifier.callees.transfer_local g)
    (classifier.callees.transfer_keepsCanonical g) (classifier.callees.transfer_steady g) Store.canonical_blank rfl
    classifier.limits settled'
  exact ⟨reached, reached.alike reached'⟩

/-- Divides in a loop that a handler leads back into; a raise cuts off the end of another block. -/
def retriedDivision : Flowgraph where
  blocks := #[{ id := ⟨0⟩, role := .entry, nodes := [⟨0⟩, ⟨1⟩, ⟨2⟩] }, { id := ⟨1⟩, nodes := [⟨3⟩] },
    { id := ⟨2⟩, nodes := [⟨4⟩, ⟨5⟩] }, { id := ⟨3⟩, role := .exit }]
  nodes := #[{ id := ⟨0⟩, operation := .read (.local "x") }, { id := ⟨1⟩, operation := .literal (.int 2) },
    { id := ⟨2⟩, operation := .binary .div ⟨0⟩ ⟨1⟩ }, { id := ⟨3⟩, operation := .handler "x" none },
    { id := ⟨4⟩, operation := .raise ⟨2⟩ }, { id := ⟨5⟩, operation := .assign (.local "x") ⟨2⟩ }]
  edges := [⟨⟨0⟩, ⟨1⟩, .exceptional⟩, ⟨⟨1⟩, ⟨0⟩, .normal⟩, ⟨⟨0⟩, ⟨2⟩, .normal⟩, ⟨⟨2⟩, ⟨3⟩, .normal⟩]
  checked := by decide

theorem checks_reach_alike_retriedDivision :
    let r : Routine := { name := "f", parameters := [{ name := "x", type := .int }], body := some retriedDivision }
    let usage := retriedDivision.analyze (Constants.Scope.transfer ⟨.empty, "D"⟩) (Constants.Routine.entryStore r) {}
    let effects := Purity.Callees.analyze ⟨.empty, .impure⟩ {} retriedDivision
    usage.stats.converged = true ∧ effects.stats.converged = true ∧ usage.ReachesLive retriedDivision ∧
      ∀ b, usage.reaches b = effects.reaches b := by
  intro r usage effects
  have settled : usage.stats.converged = true := by cbv
  have settled' : effects.stats.converged = true := by cbv
  obtain ⟨reached, alike, -⟩ := checks_reach_alike r retriedDivision rfl ⟨.empty, "D"⟩ {}
    (.start {} ⟨.empty, .impure⟩) rfl rfl settled settled'
  exact ⟨settled, settled', reached, alike⟩

end FlowCheck
