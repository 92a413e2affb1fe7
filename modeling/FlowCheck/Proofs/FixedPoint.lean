/-
  FlowCheck.Proofs.FixedPoint — a converged run has solved its equations.

  The equations of a block (`SolvedAt`): its input is the join of what the final answers let flow
  into it, or an upper bound of that at a loop head, and running its nodes from that input against
  the final values gives back every record of the block.

  Between two turns, a block that something reaches is pending or settled (`Settled`): visited, not
  stale, and its input accounts for what flows in. Visited blocks that are not stale agree with
  their replay (`Replayed`); a value changed elsewhere makes its readers stale, and a block that
  keeps the values of its imports keeps its replay. With nothing pending both say `SolvedAt`.
-/

import FlowCheck.Proofs.Contracts
import FlowCheck.Proofs.Runs

namespace FlowCheck

variable {V F : Type} [Domain V] [DecidableEq V]

/-- The value a result gives a node; top if it gives none. -/
def Result.valueOf (r : Result V F) (n : NodeId) : V := (r.node n).value.getD Domain.top

def Flowgraph.confluence (g : Flowgraph) (initial : Store V) (r : Result V F) (b : BlockId) : Store V :=
  Domain.joinAll <| (if b = g.entry then [initial] else [])
    ++ (g.predecessors b).map fun e => (r.block e.source).exit.along e.kind

/-- The answers at `b` follow from those around it. -/
structure SolvedAt (g : Flowgraph) (τ : Transfer V F) (initial : Store V) (r : Result V F) (b : BlockId) :
    Prop where
  plain : b ∉ g.loopHeads → (r.block b).input = g.confluence initial r b
  head : b ∈ g.loopHeads → Domain.join (r.block b).input (g.confluence initial r b) = (r.block b).input
  replay : g.replay τ r.valueOf b (r.block b).input = ((g.nodesOf b).map r.node, (r.block b).exit)

namespace Solver

variable {p : Solver V F} {s s' : State V F} {b c : BlockId} {input : Store V}

/-! ## Inputs account for what flows in -/

/-- `input` accounts for what flows into `b`. -/
def Accounts (p : Solver V F) (s : State V F) (b : BlockId) (input : Store V) : Prop :=
  if b ∈ p.plan.graph.loopHeads then Domain.join input (p.incoming s b) = input else input = p.incoming s b

/-- Every block that something reaches is pending, or visited with an input that accounts for it. -/
def Settled (p : Solver V F) (s : State V F) : Prop :=
  ∀ b ∈ p.order, p.rankOf b ∈ s.pending ∨ p.incoming s b = .unreachable ∨
    (s.visited b = true ∧ s.stale b = false ∧ p.Accounts s b (s.input b))

theorem Taken.accounts [LawfulDomain V] (hp : p.Planned) (taken : Taken p s b input s')
    (h : s.All Store.Canonical) (hi : p.initial.Canonical) : p.Accounts s b input := by
  obtain ⟨rest, -, intake⟩ := taken.first
  have previous := h.input b
  have incoming := h.incoming Store.stable_canonical hi b
  have joined := Store.canonical_join previous incoming
  have atHead := hp.isHead_iff (b := b)
  unfold Accounts
  cases intake with
  | fresh =>
    split
    · exact Store.join_self incoming
    · rfl
  | kept head _ same => rwa [if_pos (atHead.mp head)]
  | joined head =>
    rw [if_pos (atHead.mp head)]
    exact Store.join_join_right previous incoming
  | widened head =>
    rw [if_pos (atHead.mp head)]
    -- what flows in is below the join, and the join is below the widening
    have wide := Store.canonical_widen previous joined
    have widens := Store.below_widen_right previous joined
    show Domain.join (Domain.widen (s.input b) (Domain.join (s.input b) (p.incoming s b))) (p.incoming s b) =
      Domain.widen (s.input b) (Domain.join (s.input b) (p.incoming s b))
    rw [Store.join_comm wide incoming, ← Store.below_iff_join incoming wide]
    exact Store.below_trans joined wide (Store.below_join_right previous incoming) widens

theorem Accounts.congr {t t' : State V F} (same : p.incoming t' b = p.incoming t b) (h : p.Accounts t b input) :
    p.Accounts t' b input := by
  unfold Accounts at *
  rwa [same]

theorem incoming_silent (h : c ≠ p.plan.graph.entry)
    (silent : ∀ e ∈ p.plan.graph.predecessors c, s.exit e.source = {}) : p.incoming s c = .unreachable := by
  refine Store.not_isReachable_iff.mp (Bool.eq_false_iff.mpr fun reachable => ?_)
  rcases incoming_reachable_iff.mp reachable with ⟨e, -⟩ | ⟨e, he, target, out⟩
  · exact h e
  · rw [silent e (Flowgraph.mem_predecessors.mpr ⟨he, target⟩), BlockExit.along_empty] at out
    cases out

/-- Nothing flows into the blocks a run cannot get to. -/
theorem Shape.incoming_unplaced (shape : Shape p s) (h : c ∉ p.order) : p.incoming s c = .unreachable := by
  refine incoming_silent (fun e => h (e ▸ Flowgraph.entry_mem_reversePostorder _)) fun e he => ?_
  obtain ⟨edge, target⟩ := Flowgraph.mem_predecessors.mp he
  have away : s.visited e.source ≠ true := fun visited =>
    h (target ▸ Flowgraph.reversePostorder_closed edge (shape.placed _ visited))
  rw [State.exit, shape.unvisited _ (by simpa using away)]

theorem settled_invariant [LawfulDomain V] (hp : p.Planned) (hτ : p.transfer.Keeps Store.Canonical p.plan.graph)
    (hi : p.initial.Canonical) : Invariant p fun s => s.All Store.Canonical ∧ p.Settled s where
  start := by
    refine ⟨(all_invariant Store.stable_canonical hi fun _ => hτ).start, fun c _ => ?_⟩
    by_cases e : c = p.plan.graph.entry
    · exact .inl (by simp [e, start, rankOf])
    · exact .inr (.inl (incoming_silent e fun _ _ => by simp [State.exit, start]))
  idle {s s' b input} shape h taken why := by
    obtain ⟨canonical, settled⟩ := h
    have same := taken.sameAnswers
    refine ⟨same.all canonical, fun c hc => ?_⟩
    by_cases e : c = b
    · subst e
      right
      rcases why with none_ | current
      · left
        rw [taken.incoming_eq]
        rcases taken.input_cases shape with h | ⟨-, h⟩
        · rw [← h, none_]
        · rw [none_] at h; cases h
      · obtain ⟨visited, fresh, inputs⟩ := isCurrent_iff.mp current
        refine .inr ⟨visited, fresh, ?_⟩
        rw [← inputs]
        exact (taken.accounts hp canonical hi).congr (taken.incoming_eq c)
    · rcases settled c hc with pending | none_ | ⟨visited, fresh, accounts⟩
      · rw [taken.pending] at pending
        exact .inl ((List.mem_cons.mp pending).resolve_left fun h => e (hp.rankOf_inj hc taken.placed h))
      · exact .inr (.inl (by rw [taken.incoming_eq, none_]))
      · refine .inr (.inr ⟨by rw [same.visited, visited], by rw [same.stale, fresh], ?_⟩)
        rw [same.input_eq]
        exact accounts.congr (taken.incoming_eq c)
  visit {s s' b input} shape h taken live new := by
    obtain ⟨canonical, settled⟩ := h
    have same := taken.sameAnswers
    refine ⟨(all_invariant Store.stable_canonical hi fun _ => hτ).visit shape canonical taken live new, fun c hc => ?_⟩
    by_cases told : p.Woken s' b input c ∨ p.Flooded s' b input c
    · exact .inl ((pending_visit hp shape taken.placed).mpr (.inr ⟨c, told, rfl⟩))
    · obtain ⟨asleep, still⟩ := not_or.mp told
      have incoming := incoming_visit shape taken.placed still
      by_cases e : c = b
      · subst e
        refine .inr (.inr ⟨(visited_visit hp shape hc c).mpr (.inl rfl), ?_, ?_⟩)
        · rw [← Bool.not_eq_true, stale_visit hp shape hc]
          simp [asleep]
        · rw [input_visit shape hc, if_pos rfl]
          exact (taken.accounts hp canonical hi).congr (incoming.trans (taken.incoming_eq c))
      · rcases settled c hc with pending | none_ | ⟨visited, fresh, accounts⟩
        · rw [taken.pending] at pending
          have later := (List.mem_cons.mp pending).resolve_left fun h => e (hp.rankOf_inj hc taken.placed h)
          exact .inl ((pending_visit hp shape taken.placed).mpr (.inl later))
        · exact .inr (.inl (by rw [incoming, taken.incoming_eq, none_]))
        · refine .inr (.inr ⟨(visited_visit hp shape taken.placed c).mpr (.inr ?_), ?_, ?_⟩)
          · rw [same.visited, visited]
          · rw [← Bool.not_eq_true, stale_visit hp shape taken.placed]
            simp [asleep, same.stale, fresh]
          · rw [input_visit shape taken.placed, if_neg e, same.input_eq]
            exact accounts.congr (incoming.trans (taken.incoming_eq c))

/-! ## Records agree with replays -/

/-- Running the nodes of a visited block again would change nothing, unless it is stale. -/
def Replayed (p : Solver V F) (s : State V F) : Prop :=
  ∀ b, s.visited b = true → s.stale b = false →
    p.plan.graph.replay p.transfer (tableValue s.nodes) b (s.input b)
      = ((p.plan.graph.nodesOf b).map s.record, s.exit b)

theorem SameAnswers.replayed (same : SameAnswers s s') (h : p.Replayed s) : p.Replayed s' := by
  intro c visited fresh
  have records : s'.record = s.record := by funext n; rw [State.record, same.nodes]; rfl
  have exits : s'.exit c = s.exit c := by rw [State.exit, same.blocks]; rfl
  rw [same.nodes, same.input_eq, records, exits]
  exact h c (by rwa [← same.visited]) (by rwa [← same.stale])

theorem replayed_invariant (hp : p.Planned) (hlocal : p.transfer.Local p.plan.graph) :
    Invariant p p.Replayed where
  start := fun b hb => by simp [State.visited, start] at hb
  idle _ h taken _ := taken.sameAnswers.replayed h
  visit {s s' b input} shape h taken live new := by
    have before := taken.sameAnswers.replayed h
    intro c visited fresh
    rw [visited_visit hp shape taken.placed] at visited
    rw [← Bool.not_eq_true, stale_visit hp shape taken.placed, not_or] at fresh
    obtain ⟨asleep, fresh⟩ := fresh
    -- no import of `c` got another value
    have kept : ∀ m ∈ p.plan.graph.imports c, m ∉ (p.sweep b input s'.nodes s'.memory).changed := fun m hm changed =>
      asleep ⟨visited, m, changed, hm⟩
    rw [input_visit shape taken.placed, exit_visit shape taken.placed, nodes_visit]
    by_cases e : c = b
    · subst e
      rw [if_pos rfl, if_pos rfl, replay_sweep hlocal shape.nodes kept]
      unfold State.record
      rw [nodes_visit]
    · rw [if_neg e, if_neg e]
      have visited := visited.resolve_left e
      have own : ∀ n ∈ p.plan.graph.nodesOf c, n ∉ p.plan.graph.nodesOf b := fun n hc hb =>
        e (Flowgraph.block_unique hc hb)
      have look : ∀ n ∈ p.plan.graph.nodesOf c, ∀ m ∈ p.plan.graph.operandsOf n,
          tableValue (p.sweep b input s'.nodes s'.memory).nodes m = tableValue s'.nodes m := fun n hn m hm => by
        unfold tableValue
        by_cases hb : m ∈ p.plan.graph.nodesOf b
        · have imported := (Flowgraph.operand_local_or_imported hn hm).resolve_left fun hc => own m hc hb
          have := kept m imported
          rw [mem_changed shape.nodes] at this
          rw [not_not.mp fun h => this ⟨hb, h⟩]
        · rw [sweep_frame hb]
      rw [Flowgraph.replay, Flowgraph.replayNodes_congr hlocal look]
      refine (before c visited (by simpa [e] using fresh)).trans ?_
      congr 1
      exact List.map_congr_left fun n hn => (record_visit (own n hn)).symm

/-! ## The end of a run -/

structure Final (p : Solver V F) (t : State V F) : Prop where
  result : p.solve = t.result
  shape : Shape p t
  quiet : t.pending = []
  settled : p.Settled t
  replayed : p.Replayed t

theorem final_of_converged [LawfulDomain V] (hp : p.Planned) (hlocal : p.transfer.Local p.plan.graph)
    (hτ : p.transfer.Keeps Store.Canonical p.plan.graph) (hi : p.initial.Canonical)
    (h : p.solve.stats.converged = true) : ∃ k, p.Final (p.after k) := by
  obtain ⟨k, quiet, result⟩ := quiet_of_converged h
  exact ⟨k, result, after_shape hp k, quiet, ((settled_invariant hp hτ hi).after hp k).2,
    (replayed_invariant hp hlocal).after hp k⟩

theorem Final.solvedAt {t : State V F} (final : p.Final t) (h : p.incoming t b ≠ .unreachable) :
    SolvedAt p.plan.graph p.transfer p.initial p.solve b := by
  have placed : b ∈ p.order := by
    by_contra out
    exact h (final.shape.incoming_unplaced out)
  have idle : p.rankOf b ∉ t.pending := by simp [final.quiet]
  obtain ⟨visited, fresh, accounts⟩ := ((final.settled b placed).resolve_left idle).resolve_left h
  rw [final.result]
  refine ⟨fun plain => ?_, fun head => ?_, final.replayed b visited fresh⟩
  · rwa [Accounts, if_neg plain] at accounts
  · rwa [Accounts, if_pos head] at accounts

end Solver

/-! ## Fixed points -/

/-- Where a converged analysis lets something flow in, its answers solve the equations. -/
theorem solvedAt_of_converged [LawfulDomain V] {g : Flowgraph} {τ : Transfer V F} {initial : Store V}
    (hlocal : τ.Local g) (hτ : τ.Keeps Store.Canonical g) (hi : initial.Canonical) (limits : Limits)
    (h : (g.analyze τ initial limits).stats.converged = true) (b : BlockId)
    (inflow : g.confluence initial (g.analyze τ initial limits) b ≠ .unreachable) :
    SolvedAt g τ initial (g.analyze τ initial limits) b := by
  obtain ⟨k, final⟩ := Solver.final_of_converged (p := g.problem τ initial _ _) rfl hlocal hτ hi h
  refine final.solvedAt fun none_ => inflow ?_
  rw [show g.analyze τ initial limits = _ from final.result]
  exact none_

def copyLoop : Flowgraph where
  blocks := #[{ id := ⟨0⟩, role := .entry, nodes := [⟨0⟩, ⟨1⟩] }, { id := ⟨1⟩, nodes := [⟨2⟩, ⟨3⟩] }]
  nodes := #[{ id := ⟨0⟩, operation := .literal (.bool true) }, { id := ⟨1⟩, operation := .assign (.local "x") ⟨0⟩ },
    { id := ⟨2⟩, operation := .read (.local "x") }, { id := ⟨3⟩, operation := .assign (.local "x") ⟨2⟩ }]
  edges := [⟨⟨0⟩, ⟨1⟩, .normal⟩, ⟨⟨1⟩, ⟨1⟩, .normal⟩]
  checked := by decide

theorem copyLoop_solvedAt :
    (copyLoop.analyze (Constants.Scope.transfer ⟨.empty, "D"⟩) .blank {}).stats.converged = true ∧
      SolvedAt copyLoop (Constants.Scope.transfer ⟨.empty, "D"⟩) .blank
        (copyLoop.analyze (Constants.Scope.transfer ⟨.empty, "D"⟩) .blank {}) ⟨1⟩ := by
  have converged : (copyLoop.analyze (Constants.Scope.transfer ⟨.empty, "D"⟩) .blank {}).stats.converged = true := by
    cbv
  refine ⟨converged, solvedAt_of_converged (Constants.Scope.transfer_local _ _)
    (Constants.Scope.transfer_keepsCanonical _ _) Store.canonical_blank {} converged ⟨1⟩ ?_⟩
  rw [Ne, ← Store.not_isReachable_iff, Bool.not_eq_false]
  cbv

end FlowCheck
