/-
  FlowCheck.Proofs.Effects — the effect analysis finds the effect of the live nodes.

  Its stores are only passed on, so every store of a run is unreachable or blank (`Store.Bare`),
  and a visit from a reachable input leaves one and the same answer each time: which exits are
  reachable is a matter of the operations, and so is the value of every node that is run. Hence
  - a block is visited again only because it is stale, and that visit changes nothing (`revisit`);
  - no loop head ever widens;
  - the first visit to a block makes at most the visited blocks stale, so a run that has visited
    `v` blocks has made at most `v * (v + 1)` visits, those still owed to stale blocks included
    (`Counted`): a cap of `n * (n + 1)` visits is never hit.
-/

import FlowCheck.Proofs.Liveness
import FlowCheck.Purity.Classifier
import Mathlib.Data.Finset.Card
import Mathlib.Tactic.Ring

namespace FlowCheck

def Store.Bare {V : Type} (s : Store V) : Prop := s = .unreachable ∨ s = .blank

namespace Store

variable {V : Type}

theorem Bare.eq_blank {s : Store V} (h : s.Bare) (live : s.isReachable = true) : s = .blank := by
  rcases h with rfl | rfl
  · cases live
  · rfl

theorem Bare.ext {a b : Store V} (ha : a.Bare) (hb : b.Bare)
    (same : a.isReachable = true ↔ b.isReachable = true) : a = b := by
  rcases ha with rfl | rfl <;> rcases hb with rfl | rfl <;> simp_all

variable [Domain V] [DecidableEq V]

theorem stable_bare : Stable (V := V) Bare where
  unreachable := .inl rfl
  join := by rintro a b (rfl | rfl) (rfl | rfl) <;> first | exact .inl rfl | exact .inr rfl
  widen := by rintro a b (rfl | rfl) (rfl | rfl) <;> first | exact .inl rfl | exact .inr rfl

end Store

namespace Purity

namespace Callees

variable (c : Callees)

def effectOfOperation : Operation → Properties
  | .assign (.field ..) _ | .storeElement .. => .impure
  | .allocate .. | .handler .. => ⟨false, true⟩
  | .call callee .. => c.effect callee
  | _ => .pure

theorem transfer_value (node : Node) (sit : Situation Properties) :
    (c.transfer node sit).value = some (c.effectOfOperation node.operation) := by
  unfold transfer effectOfOperation impurity?
  cases node.operation with
  | assign target _ => cases target <;> rfl
  | call callee _ _ =>
    dsimp only
    split
    · rename_i pure
      obtain ⟨deterministic, sideEffectFree⟩ := Bool.and_eq_true_iff.mp pure
      cases e : c.effect callee
      simp_all [Properties.pure]
    · rfl
  | _ => rfl

theorem transfer_bare (g : Flowgraph) : c.transfer.Keeps Store.Bare g := by
  intro node store look h
  unfold transfer
  refine ⟨?_, ?_, fun t ht => ?_⟩
  · dsimp only
    split
    · exact .inl rfl
    · exact h
  · dsimp only
    split
    · exact .inl rfl
    · exact h
  · simp only [ite_eq_iff, Option.some.injEq, reduceCtorEq, and_false, or_false] at ht
    exact ht.2 ▸ h

end Callees

/-! ## A visit leaves one and the same answer each time -/

section

open Solver

variable {c : Callees} {p : Solver Properties Impurity} {s s' t : State Properties Impurity} {b : BlockId}
  {input : Store Properties}

structure Posed (c : Callees) (p : Solver Properties Impurity) : Prop where
  planned : p.Planned
  transfer : p.transfer = c.transfer
  initial : p.initial = .blank

theorem Posed.bare (posed : Posed c p) : p.initial.Bare := by
  rw [posed.initial]
  exact .inr rfl

/-- What holds of every state of a run, the number of visits aside. -/
structure Plain (p : Solver Properties Impurity) (s : State Properties Impurity) : Prop where
  shape : Shape p s
  traced : p.Traced s
  bare : s.All Store.Bare

/-- The value and facts of a node of a visited block. -/
theorem record_known (posed : Posed c p) (traced : p.Traced s) (visited : s.visited b = true) {n : NodeId}
    (hn : n ∈ p.plan.graph.nodesOf b) {node : Node} (hnode : p.plan.graph.node? n = some node) :
    (p.plan.graph.RunsIn (p.plan.graph.nodesOf b) n →
        (s.record n).value = some (c.effectOfOperation node.operation) ∧
          (s.record n).facts = (c.impurity? node.operation).toList) ∧
      (¬p.plan.graph.RunsIn (p.plan.graph.nodesOf b) n → (s.record n).value = none ∧ (s.record n).facts = []) := by
  obtain ⟨look, record⟩ := traced.effect b visited n hn
  have before := traced.before b visited n hn
  rw [posed.transfer] at record
  rw [record]
  constructor
  · intro runs
    obtain ⟨facts, known⟩ := Store.isReachable_iff.mp (before.mpr runs)
    have effect : p.plan.graph.effectAt c.transfer look n (.known facts) =
        c.transfer node ⟨p.plan.graph, .known facts, look⟩ := by
      unfold Flowgraph.effectAt; simp only [hnode]
    rw [known, effect]
    exact ⟨c.transfer_value node ⟨p.plan.graph, .known facts, look⟩, rfl⟩
  · intro cut
    have none_ : (s.record n).before = .unreachable :=
      Store.not_isReachable_iff.mp (Bool.eq_false_iff.mpr fun h => cut (before.mp h))
    rw [none_, Flowgraph.effectAt_unreachable]
    exact ⟨rfl, rfl⟩

theorem value_unique (posed : Posed c p) (hs : p.Traced s) (ht : p.Traced t) (vs : s.visited b = true)
    (vt : t.visited b = true) {n : NodeId} (hn : n ∈ p.plan.graph.nodesOf b) :
    (s.record n).value = (t.record n).value := by
  obtain ⟨node, hnode, -⟩ := Flowgraph.node_of_mem hn
  have ks := record_known posed hs vs hn hnode
  have kt := record_known posed ht vt hn hnode
  by_cases runs : p.plan.graph.RunsIn (p.plan.graph.nodesOf b) n
  · rw [(ks.1 runs).1, (kt.1 runs).1]
  · rw [(ks.2 runs).1, (kt.2 runs).1]

theorem exit_unique (hs : Plain p s) (ht : Plain p t) (vs : s.visited b = true) (vt : t.visited b = true) :
    s.exit b = t.exit b := by
  refine BlockExit.ext_along fun k => ?_
  exact (hs.bare.exit b k).ext (ht.bare.exit b k) ((hs.traced.exit b vs k).trans (ht.traced.exit b vt k).symm)

/-- The input of a visited block can only be blank, and no loop head widens. -/
theorem Plain.taken (posed : Posed c p) (plain : Plain p s) (taken : Taken p s b input s') :
    s'.stats.widenings = s.stats.widenings ∧
      (s.visited b = true → input.isReachable = true → input = s.input b) := by
  obtain ⟨rest, -, intake⟩ := taken.first
  have incoming := plain.bare.incoming Store.stable_bare posed.bare b
  have previous : s.visited b = true → s.input b = .blank := fun again =>
    (plain.bare.input b).eq_blank (plain.shape.reached b again)
  have nothingNew : s.visited b = true →
      Domain.join (s.input b) (p.incoming s b) = s.input b := fun again => by
    rw [previous again]
    exact Store.blank_join _
  cases intake with
  | fresh => exact ⟨rfl, fun again live => (incoming.eq_blank live).trans (previous again).symm⟩
  | kept => exact ⟨rfl, fun _ _ => rfl⟩
  | joined _ again new => exact absurd (nothingNew again) new
  | widened _ again new => exact absurd (nothingNew again) new

theorem plain_invariant (posed : Posed c p) : Invariant p (Plain p) := by
  have traced := traced_invariant posed.planned (posed.transfer ▸ c.transfer_steady _)
  have keeps : p.transfer.Keeps Store.Bare p.plan.graph := posed.transfer ▸ c.transfer_bare _
  have bare : Invariant p (State.All Store.Bare) := all_invariant Store.stable_bare posed.bare fun _ => keeps
  constructor
  · exact ⟨traced.start.1, traced.start.2, bare.start⟩
  · intro s s' b input shape h taken why
    have ⟨shape', traced'⟩ := traced.idle shape ⟨h.shape, h.traced⟩ taken why
    exact ⟨shape', traced', bare.idle shape h.bare taken why⟩
  · intro s s' b input shape h taken live new
    have ⟨shape', traced'⟩ := traced.visit shape ⟨h.shape, h.traced⟩ taken live new
    exact ⟨shape', traced', bare.visit shape h.bare taken live new⟩

/-- A second visit to a block puts nothing out of date. -/
theorem revisit (posed : Posed c p) (plain : Plain p s) (plain' : Plain p (p.visit b input s))
    (placed : b ∈ p.order) (again : s.visited b = true) (d : BlockId) :
    ¬p.Woken s b input d ∧ ¬p.Flooded s b input d := by
  have visited : (p.visit b input s).visited b = true :=
    (visited_visit posed.planned plain.shape placed b).mpr (.inl rfl)
  constructor
  · intro h
    obtain ⟨-, m, changed, -⟩ := h
    obtain ⟨hm, other⟩ := (mem_changed plain.shape.nodes m).mp changed
    refine other ?_
    have same := value_unique posed plain.traced plain'.traced again visited hm
    rwa [State.record, State.record, nodes_visit] at same
  · intro h
    obtain ⟨other, -⟩ := h
    refine other ?_
    have same := exit_unique plain plain' again visited
    rw [exit_visit plain.shape placed, if_pos rfl] at same
    exact same.symm

/-! ## Counting visits -/

def visitedBlocks (p : Solver Properties Impurity) (s : State Properties Impurity) : Finset BlockId :=
  p.plan.graph.blockIds.toFinset.filter (s.visited · = true)

/-- The blocks that are owed a visit because a value they read has changed. -/
def staleBlocks (p : Solver Properties Impurity) (s : State Properties Impurity) : Finset BlockId :=
  p.plan.graph.blockIds.toFinset.filter (s.stale · = true)

structure Counted (p : Solver Properties Impurity) (s : State Properties Impurity) : Prop where
  unwidened : s.stats.widenings = 0
  staleVisited : ∀ b, s.stale b = true → s.visited b = true
  visits : s.stats.visits + (staleBlocks p s).card
    ≤ (visitedBlocks p s).card * ((visitedBlocks p s).card + 1)

theorem SameAnswers.visitedBlocks (same : SameAnswers s s') : visitedBlocks p s' = visitedBlocks p s := by
  unfold Purity.visitedBlocks
  simp only [same.visited]

theorem SameAnswers.staleBlocks (same : SameAnswers s s') : staleBlocks p s' = staleBlocks p s := by
  unfold Purity.staleBlocks
  simp only [same.stale]

theorem mem_blockIds_of_order {d : BlockId} (h : d ∈ p.order) : d ∈ p.plan.graph.blockIds.toFinset :=
  List.mem_toFinset.mpr (Flowgraph.mem_blockIds.mpr (Flowgraph.hasBlock_of_mem_order h))

theorem visitedBlocks_visit (posed : Posed c p) (shape : Shape p s) (placed : b ∈ p.order) :
    visitedBlocks p (p.visit b input s) = insert b (visitedBlocks p s) := by
  ext d
  simp only [visitedBlocks, Finset.mem_filter, Finset.mem_insert, visited_visit posed.planned shape placed]
  constructor
  · intro h
    obtain ⟨exist, rfl | again⟩ := h
    · exact .inl rfl
    · exact .inr ⟨exist, again⟩
  · intro h
    rcases h with rfl | ⟨exist, again⟩
    · exact ⟨mem_blockIds_of_order placed, .inl rfl⟩
    · exact ⟨exist, .inr again⟩

theorem card_visitedBlocks_le : (visitedBlocks p s).card ≤ p.plan.graph.blocks.size := by
  have all : p.plan.graph.blockIds.toFinset.card = p.plan.graph.blocks.size := by
    rw [List.toFinset_card_of_nodup Flowgraph.nodup_blockIds]
    simp [Flowgraph.blockIds]
  exact all ▸ Finset.card_filter_le _ _

/-- A second visit pays what the block was owed. -/
theorem staleBlocks_revisit (posed : Posed c p) (plain : Plain p s) (plain' : Plain p (p.visit b input s))
    (placed : b ∈ p.order) (again : s.visited b = true) :
    staleBlocks p (p.visit b input s) = (staleBlocks p s).erase b := by
  ext d
  have still := (revisit posed plain plain' placed again d).1
  simp only [staleBlocks, Finset.mem_filter, Finset.mem_erase, stale_visit posed.planned plain.shape placed, still,
    false_or]
  tauto

theorem counted_invariant (posed : Posed c p) : Invariant p fun s => Plain p s ∧ Counted p s where
  start := by
    refine ⟨(plain_invariant posed).start, rfl, fun b hb => ?_, ?_⟩
    · simp [State.stale, start] at hb
    · simp [visitedBlocks, staleBlocks, State.visited, State.stale, start]
  idle {s s' b input} shape h taken why := by
    have same := taken.sameAnswers
    refine ⟨(plain_invariant posed).idle shape h.1 taken why, ?_, fun d hd => ?_, ?_⟩
    · rw [(h.1.taken posed taken).1]; exact h.2.unwidened
    · rw [same.stale] at hd
      rw [same.visited]
      exact h.2.staleVisited d hd
    · rw [same.visits, SameAnswers.visitedBlocks same, SameAnswers.staleBlocks same]
      exact h.2.visits
  visit {s s' b input} shape h taken live new := by
    obtain ⟨plain, counted⟩ := h
    have same := taken.sameAnswers
    have placed := taken.placed
    have after := (plain_invariant posed).visit shape plain taken live new
    have bound := counted.visits
    rw [← SameAnswers.visitedBlocks same, ← SameAnswers.staleBlocks same] at bound
    have visits : (p.visit b input s').stats.visits = s.stats.visits + 1 := by
      rw [stats_visit, booked, same.visits]
    have stale : ∀ d, (p.visit b input s').stale d = true ↔ p.Woken s' b input d ∨ d ≠ b ∧ s'.stale d = true :=
      stale_visit posed.planned shape placed
    have grown : visitedBlocks p (p.visit b input s') = insert b (visitedBlocks p s') :=
      visitedBlocks_visit posed shape placed
    have staleVisited : ∀ d, (p.visit b input s').stale d = true → (p.visit b input s').visited d = true := by
      intro d hd
      rw [visited_visit posed.planned shape placed]
      rcases (stale d).mp hd with woken | ⟨-, old⟩
      · exact woken.1
      · rw [same.stale] at old
        rw [same.visited]
        exact .inr (counted.staleVisited d old)
    refine ⟨after, ?_, staleVisited, ?_⟩
    · rw [stats_visit, booked, (plain.taken posed taken).1]
      exact counted.unwidened
    · rw [visits, grown]
      by_cases again : s'.visited b = true
      · -- a block visited again was stale, and is no more
        have now : Plain p s' := ⟨shape, same.traced plain.traced, same.all plain.bare⟩
        have unchanged := (plain.taken posed taken).2 (by rwa [← same.visited]) live
        rw [← same.input_eq] at unchanged
        have owed : b ∈ staleBlocks p s' :=
          Finset.mem_filter.mpr ⟨mem_blockIds_of_order placed, stale_of_again again unchanged new⟩
        have known : b ∈ visitedBlocks p s' := Finset.mem_filter.mpr ⟨mem_blockIds_of_order placed, again⟩
        have one := Finset.card_pos.mpr ⟨b, owed⟩
        rw [staleBlocks_revisit posed now after placed again, Finset.insert_eq_of_mem known,
          Finset.card_erase_of_mem owed]
        omega
      · -- the first visit makes at most the visited blocks stale
        have unknown : b ∉ visitedBlocks p s' := fun h => again (Finset.mem_filter.mp h).2
        have owed : (staleBlocks p (p.visit b input s')).card ≤ (insert b (visitedBlocks p s')).card := by
          rw [← grown]
          exact Finset.card_le_card (Finset.monotone_filter_right _ fun d _ => staleVisited d)
        rw [Finset.card_insert_of_notMem unknown] at owed ⊢
        have square : ((visitedBlocks p s').card + 1) * ((visitedBlocks p s').card + 1 + 1)
            = (visitedBlocks p s').card * ((visitedBlocks p s').card + 1)
              + 2 * ((visitedBlocks p s').card + 1) := by ring
        omega

/-- With a cap of `n * (n + 1)` no visit is refused. -/
theorem visits_lt_cap (posed : Posed c p)
    (room : p.plan.graph.blocks.size * (p.plan.graph.blocks.size + 1) ≤ p.maxVisits) {k : Nat}
    (turn : p.turn (p.after k) = .visit b input s') : s'.stats.visits < p.maxVisits := by
  have shape := after_shape posed.planned k (p := p)
  obtain ⟨taken, live, new⟩ := posed.planned.taken_of_visit shape turn
  have counted := (counted_invariant posed).after posed.planned k
  have next := ((counted_invariant posed).visit (taken.shape shape) counted taken live new).2.visits
  rw [stats_visit, booked] at next
  have few : (visitedBlocks p (p.visit b input s')).card ≤ p.plan.graph.blocks.size := card_visitedBlocks_le
  have square := Nat.mul_le_mul few (Nat.add_le_add_right few 1)
  simp only at next
  omega

/-- The value and facts of a node in any state of a run. -/
theorem known_of_traced (posed : Posed c p) (shape : Shape p t) (traced : p.Traced t) (n : NodeId) :
    ((∃ b, t.visited b = true ∧ p.plan.graph.RunsIn (p.plan.graph.nodesOf b) n) →
        ∃ node, p.plan.graph.node? n = some node ∧
          (t.record n).value = some (c.effectOfOperation node.operation) ∧
            (t.record n).facts = (c.impurity? node.operation).toList) ∧
      ((¬∃ b, t.visited b = true ∧ p.plan.graph.RunsIn (p.plan.graph.nodesOf b) n) →
        (t.record n).value = none ∧ (t.record n).facts = []) := by
  constructor
  · intro h
    obtain ⟨b, visited, runs⟩ := h
    obtain ⟨node, hnode, -⟩ := Flowgraph.node_of_mem runs.mem
    exact ⟨node, hnode, (record_known posed traced visited runs.mem hnode).1 runs⟩
  · intro dead
    rcases shape.record_cases n with ⟨b, hn, visited⟩ | empty
    · obtain ⟨node, hnode, -⟩ := Flowgraph.node_of_mem hn
      exact (record_known posed traced visited hn hnode).2 fun runs => dead ⟨b, visited, runs⟩
    · rw [empty]
      exact ⟨rfl, rfl⟩

end

/-! ## The verdict -/

/-- The answers of the effect analysis under any limits, said by the blocks it reached. -/
structure Sound (c : Callees) (g : Flowgraph) (r : Result Properties Impurity) : Prop where
  live : ∀ b, r.reaches b = true → g.Live b
  value : ∀ n v, (r.node n).value = some v ↔
    (∃ b, r.reaches b = true ∧ g.RunsIn (g.nodesOf b) n) ∧
      ∃ node, g.node? n = some node ∧ v = c.effectOfOperation node.operation
  facts : ∀ n f, f ∈ (r.node n).facts ↔
    (∃ b, r.reaches b = true ∧ g.RunsIn (g.nodesOf b) n) ∧
      ∃ node, g.node? n = some node ∧ c.impurity? node.operation = some f

/-- The answers of the effect analysis, said without the solver. -/
structure Exact (c : Callees) (g : Flowgraph) (r : Result Properties Impurity) : Prop where
  converged : r.stats.converged = true
  unwidened : r.stats.widenings = 0
  reaches : ∀ b, r.reaches b = true ↔ g.Live b
  value : ∀ n v, (r.node n).value = some v ↔
    g.LiveNode n ∧ ∃ node, g.node? n = some node ∧ v = c.effectOfOperation node.operation
  facts : ∀ n f, f ∈ (r.node n).facts ↔
    g.LiveNode n ∧ ∃ node, g.node? n = some node ∧ c.impurity? node.operation = some f

section

open Solver

abbrev Callees.problem (c : Callees) (limits : Limits) (g : Flowgraph) : Solver Properties Impurity :=
  g.problem c.transfer .blank limits.widenDelay.toNat limits.maxVisits.toNat

theorem Callees.posed (c : Callees) (limits : Limits) (g : Flowgraph) : Posed c (c.problem limits g) :=
  ⟨rfl, rfl, rfl⟩

/-- A run that is stopped early has the answers of one of its states. -/
theorem analyze_sound (c : Callees) (limits : Limits) (g : Flowgraph) : Sound c g (c.analyze limits g) := by
  have posed := c.posed limits g
  obtain ⟨k, blocks, nodes, -⟩ := solve_answers posed.planned
  have shape := after_shape posed.planned k
  have traced := after_traced posed.planned (c.transfer_steady g) k (p := c.problem limits g)
  have reaches : ∀ b, (c.analyze limits g).reaches b = true ↔ ((c.problem limits g).after k).visited b = true := by
    intro b
    rw [← shape.reached_iff, State.input, ← blocks]
    rfl
  have records : ∀ n, (c.analyze limits g).node n = ((c.problem limits g).after k).record n := by
    intro n
    rw [State.record, ← nodes]
    rfl
  have known := known_of_traced posed shape traced
  refine ⟨fun b reached => traced.live b ((reaches b).mp reached), fun n v => ?_, fun n f => ?_⟩
  · simp only [reaches, records]
    by_cases ran : ∃ b, ((c.problem limits g).after k).visited b = true ∧ g.RunsIn (g.nodesOf b) n
    · obtain ⟨node, found, value, -⟩ := (known n).1 ran
      have here : g.node? n = some node := found
      rw [value]
      simp only [ran, here, true_and, Option.some.injEq, exists_eq_left']
      exact eq_comm
    · simp [((known n).2 ran).1, ran]
  · simp only [reaches, records]
    by_cases ran : ∃ b, ((c.problem limits g).after k).visited b = true ∧ g.RunsIn (g.nodesOf b) n
    · obtain ⟨node, found, -, facts⟩ := (known n).1 ran
      have here : g.node? n = some node := found
      rw [facts]
      simp [ran, here]
    · simp [((known n).2 ran).2, ran]

/-- A run that ends by itself reaches every live block. -/
theorem reaches_of_converged {c : Callees} {limits : Limits} {g : Flowgraph}
    (converged : (c.analyze limits g).stats.converged = true) (b : BlockId) :
    (c.analyze limits g).reaches b = true ↔ g.Live b := by
  have posed := c.posed limits g
  obtain ⟨k, final⟩ := final_of_converged posed.planned (c.transfer_local g) (c.transfer_keepsCanonical g)
    Store.canonical_blank converged
  exact final.reaches_iff (after_traced posed.planned (c.transfer_steady g) k) rfl

theorem converged_of_room (c : Callees) {g : Flowgraph} {limits : Limits}
    (room : g.blocks.size * (g.blocks.size + 1) ≤ limits.maxVisits.toNat) :
    (c.analyze limits g).stats.converged = true := by
  have posed := c.posed limits g
  rcases (c.problem limits g).solve_cases with ⟨k, -, result⟩ | ⟨k, b, input, s', turn, spent, -⟩
  · rw [show c.analyze limits g = _ from result]
    exact (after_shape posed.planned k).converged
  · exact absurd (visits_lt_cap posed room turn) (Nat.not_lt.mpr spent)

theorem analyze_exact (c : Callees) (g : Flowgraph) (limits : Limits)
    (room : g.blocks.size * (g.blocks.size + 1) ≤ limits.maxVisits.toNat) : Exact c g (c.analyze limits g) := by
  have posed := c.posed limits g
  have sound := analyze_sound c limits g
  have converged := converged_of_room c room
  have reaches := reaches_of_converged converged
  have live : ∀ n, (∃ b, (c.analyze limits g).reaches b = true ∧ g.RunsIn (g.nodesOf b) n) ↔ g.LiveNode n := by
    simp only [reaches, Flowgraph.LiveNode, implies_true]
  refine ⟨converged, ?_, reaches, fun n v => ?_, fun n f => ?_⟩
  · obtain ⟨k, -, result⟩ := quiet_of_converged (p := c.problem limits g) converged
    rw [show c.analyze limits g = _ from result]
    exact ((counted_invariant posed).after posed.planned k).2.unwidened
  · rw [← live]; exact sound.value n v
  · rw [← live]; exact sound.facts n f

end

open Classical in
/-- The effect of a body is the join of the effects of the nodes that have their effect as a value. -/
theorem effectOf_eq {c : Callees} {g : Flowgraph} {r : Result Properties Impurity} {counts : NodeId → Prop}
    (h : ∀ n v, (r.node n).value = some v ↔
      counts n ∧ ∃ node, g.node? n = some node ∧ v = c.effectOfOperation node.operation) :
    effectOf g r = Domain.joinAll
      ((g.nodes.toList.filter fun node => counts node.id).map fun node => c.effectOfOperation node.operation) := by
  rw [effectOf, ← List.filterMap_eq_map, List.filterMap_filter]
  congr 1
  refine List.filterMap_congr fun node hnode => ?_
  have found := Flowgraph.node?_id hnode
  by_cases live : counts node.id
  · simpa [live] using (h node.id _).mpr ⟨live, node, found, rfl⟩
  · have none_ : (r.node node.id).value = none := Option.eq_none_iff_forall_ne_some.mpr fun v hv =>
      live ((h _ _).mp hv).1
    simp [live, none_]

open Classical in
/-- Labelling a routine: its run converges with exact answers, and the label says which properties
all live nodes have. -/
theorem classify_exact (classifier : Classifier) (declaration : String) (r : Routine) (g : Flowgraph)
    (body : r.body = some g)
    (room : g.blocks.size * (g.blocks.size + 1) ≤ classifier.limits.maxVisits.toNat) :
    Exact classifier.callees g (classifier.callees.analyze classifier.limits g) ∧
      (classifier.classify declaration r).1.1 = .ofProperties (Domain.joinAll
        ((g.nodes.toList.filter fun node => g.LiveNode node.id).map fun node =>
          classifier.callees.effectOfOperation node.operation)) := by
  have exact_ := analyze_exact classifier.callees g classifier.limits room
  refine ⟨exact_, ?_⟩
  rw [← effectOf_eq exact_.value]
  simp only [Classifier.classify, Classifier.judge, body]

/-- A block that raises before it assigns a field, and one that nothing leads to. -/
def raiseFirst : Flowgraph where
  blocks := #[{ id := ⟨0⟩, role := .entry, nodes := [⟨0⟩, ⟨1⟩, ⟨2⟩] }, { id := ⟨1⟩, nodes := [⟨3⟩] },
    { id := ⟨2⟩, nodes := [⟨4⟩] }]
  nodes := #[{ id := ⟨0⟩, operation := .allocate "E" [] }, { id := ⟨1⟩, operation := .raise ⟨0⟩ },
    { id := ⟨2⟩, operation := .assign (.field "this" "x") ⟨3⟩ }, { id := ⟨3⟩, operation := .handler "e" none },
    { id := ⟨4⟩, operation := .assign (.field "this" "x") ⟨0⟩ }]
  edges := [⟨⟨0⟩, ⟨1⟩, .exceptional⟩, ⟨⟨0⟩, ⟨2⟩, .normal⟩, ⟨⟨1⟩, ⟨1⟩, .normal⟩]
  checked := by decide

theorem classify_exact_raiseFirst :
    raiseFirst.blocks.size * (raiseFirst.blocks.size + 1) ≤ (10000 : UInt64).toNat ∧
      Exact ⟨.empty, .impure⟩ raiseFirst (Callees.analyze ⟨.empty, .impure⟩ {} raiseFirst) :=
  ⟨by decide, (classify_exact (.start {} ⟨.empty, .impure⟩) "D" { name := "f", body := some raiseFirst } raiseFirst
    rfl (by decide)).1⟩

end Purity

end FlowCheck
