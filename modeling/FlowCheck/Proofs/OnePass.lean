/-
  FlowCheck.Proofs.OnePass — without loops the solver makes one pass over the blocks in order.

  A pass (`onePass`) knows nothing of pending blocks, marks or caps. It takes the reachable blocks in
  reverse postorder, joins what flows into each from the blocks before it, and runs its nodes, unless
  nothing reachable flows in.

  If there are no loop heads and operands are in order, a run of the solver is such a pass
  (`onePass_of_loopless`). Between two turns the order splits into the blocks the run has come past
  and those ahead (`Passed`). The tables are those of a pass over the former, every pending block is
  ahead, and so is every block into which something flows while it is not pending yet. For
  - a visit sends its stores on to later blocks only, there being no loop heads (`Plan.rank_lt`);
  - no block that has been visited reads a value that comes later, so none is made stale;
  - the pending blocks are taken in order, so what lies before the first of them is not reached.
  No law of the domain is needed, and nothing is assumed of the client: it may keep a memory, which
  goes through the same changes in both.
-/

import FlowCheck.Analysis.Counting
import FlowCheck.Proofs.Runs

namespace FlowCheck

variable {V F σ : Type} [Domain V] [DecidableEq V]

/-! ## A pass -/

structure Tables (V F σ : Type) where
  memory : σ
  blocks : Slots (BlockRecord V)
  nodes : Slots (NodeRecord V F)

namespace Flowgraph

variable (g : Flowgraph) (f : Client V F σ) (memory : σ) (initial : Store V)

def blankTables : Tables V F σ := ⟨memory, .filled g.blocks.size {}, .filled g.nodes.size {}⟩

def inflowOf (t : Tables V F σ) (b : BlockId) : Store V :=
  Domain.joinAll <| (if b = g.entry then [initial] else [])
    ++ (g.predecessors b).map fun e => (t.blocks.get e.source.index).exit.along e.kind

def passNode (w : σ × Slots (NodeRecord V F) × Outflow V × Store V) (n : NodeId) :
    σ × Slots (NodeRecord V F) × Outflow V × Store V :=
  let (m, records, out, handlers) := w
  let e := g.effectAt (f.rule m) (tableValue records) n out.merged
  (g.memoryAt f m (tableValue records) n out.merged, records.set n.index (.of out.merged e), e.outflow,
    e.seenBy handlers)

/-- Runs one block, unless nothing reachable flows into it. -/
def passBlock (t : Tables V F σ) (b : BlockId) : Tables V F σ :=
  let input := g.inflowOf initial t b
  if input.isReachable then
    let (memory, nodes, out, handlers) :=
      (g.nodesOf b).foldl (g.passNode f) (t.memory, t.nodes, .same input, .unreachable)
    { memory, nodes, blocks := t.blocks.set b.index { input, exit := .of out handlers } }
  else t

/-- Runs the reachable blocks, each once, in reverse postorder. -/
def onePass : Tables V F σ := g.reversePostorder.foldl (g.passBlock f initial) (g.blankTables memory)

variable {g f memory initial}

/-- Blocks that nothing flows into change nothing. -/
theorem foldl_passBlock_silent {l : List BlockId} {t : Tables V F σ}
    (silent : ∀ b ∈ l, (g.inflowOf initial t b).isReachable = false) : l.foldl (g.passBlock f initial) t = t := by
  induction l with
  | nil => rfl
  | cons b l ih =>
    have same : g.passBlock f initial t b = t := by
      have away := silent b List.mem_cons_self
      simp only [passBlock, away, Bool.false_eq_true, if_false]
    rw [List.foldl_cons, same]
    exact ih fun c hc => silent c (List.mem_cons_of_mem _ hc)

def nodeIds (g : Flowgraph) : List NodeId := g.nodes.toList.map (·.id)

theorem nodup_nodeIds (g : Flowgraph) : g.nodeIds.Nodup := by
  refine List.Nodup.of_map NodeId.index ?_
  rw [nodeIds, List.map_map]
  show (g.nodes.toList.map (·.id.index)).Nodup
  rw [nodes_index]
  exact List.nodup_range

theorem mem_nodeIds {b : BlockId} {n : NodeId} (h : n ∈ g.nodesOf b) : n ∈ g.nodeIds := by
  obtain ⟨node, found, rfl⟩ := node_of_mem h
  exact List.mem_map.mpr ⟨node, Array.mem_toList_iff.mpr (Array.mem_of_getElem? found), rfl⟩

end Flowgraph

/-- Counting after some elements have come to count that did not. -/
theorem countP_of_new {α : Type} (l new : List α) {p q : α → Bool} (nodup : l.Nodup) (once : new.Nodup)
    (inside : ∀ x ∈ new, x ∈ l) (before : ∀ x ∈ new, p x = false) (same : ∀ x, x ∉ new → q x = p x) :
    l.countP q = l.countP p + new.countP q := by
  have apart : (l.filter p).Disjoint (new.filter q) := fun x hp hq => by
    have counted := (List.mem_filter.mp hp).2
    rw [before x (List.mem_filter.mp hq).1] at counted
    cases counted
  have perm : (l.filter q).Perm (l.filter p ++ new.filter q) := by
    refine (List.perm_ext_iff_of_nodup (nodup.filter q)
      ((nodup.filter p).append (once.filter q) apart)).mpr fun x => ?_
    simp only [List.mem_append, List.mem_filter]
    by_cases hx : x ∈ new
    · simp [hx, inside x hx, before x hx]
    · simp [hx, same x hx]
  simpa [List.countP_eq_length_filter] using perm.length_eq

namespace Solver

variable {p : Solver V F σ} {s s' : State V F σ} {b c : BlockId} {input : Store V}

/-! ## A visit runs one block -/

theorem foldl_passNode {l : List NodeId} {w : Sweep V F σ} (h : Ready p.plan.graph l w.nodes) :
    l.foldl (p.plan.graph.passNode p.client) (w.memory, w.nodes, w.outflow, w.exceptional)
      = ((l.foldl p.sweepNode w).memory, (l.foldl p.sweepNode w).nodes, (l.foldl p.sweepNode w).outflow,
        (l.foldl p.sweepNode w).exceptional) := by
  induction l generalizing w with
  | nil => rfl
  | cons n l ih =>
    obtain ⟨node, hn⟩ := h.head_eq
    rw [List.foldl_cons, List.foldl_cons, ← ih h.tail, sweepNode_eq hn]
    rfl

def State.tables (s : State V F σ) : Tables V F σ := ⟨s.memory, s.blocks, s.nodes⟩

theorem tables_visit (size : s.nodes.size = p.plan.graph.nodes.size) (live : (p.incoming s b).isReachable = true) :
    (p.visit b (p.incoming s b) s).tables = p.plan.graph.passBlock p.client p.initial s.tables b := by
  have flows : p.plan.graph.inflowOf p.initial s.tables b = p.incoming s b := rfl
  have ran := foldl_passNode (p := p) (w := { memory := s.memory, nodes := s.nodes, outflow := .same (p.incoming s b) })
    (ready_nodesOf size b)
  unfold Flowgraph.passBlock
  rw [flows, if_pos live]
  simp only [State.tables, ran, memory_visit, blocks_visit, nodes_visit]
  rfl

/-! ## The pending blocks are in order -/

section

omit [Domain V] [DecidableEq V]

theorem insertRank_sorted {l : List Nat} {r : Nat} (h : l.Pairwise (· < ·)) :
    (insertRank r l).Pairwise (· < ·) := by
  induction l with
  | nil => simp [insertRank]
  | cons k l ih =>
    obtain ⟨first, rest⟩ := List.pairwise_cons.mp h
    unfold insertRank
    split
    · refine List.pairwise_cons.mpr ⟨fun q hq => ?_, h⟩
      rcases List.mem_cons.mp hq with rfl | hq
      · assumption
      · have := first q hq
        omega
    · split
      · exact h
      · refine List.pairwise_cons.mpr ⟨fun q hq => ?_, ih rest⟩
        rcases mem_insertRank.mp hq with rfl | hq
        · omega
        · exact first q hq

theorem enqueue_sorted (l : List BlockId) (h : s.pending.Pairwise (· < ·)) :
    (l.foldl p.enqueue s).pending.Pairwise (· < ·) :=
  List.foldlRecOn (motive := fun s : State V F σ => s.pending.Pairwise (· < ·)) l _ h
    fun _ ih _ _ => insertRank_sorted ih

theorem wake_sorted (l : List BlockId) (h : s.pending.Pairwise (· < ·)) :
    (l.foldl p.wake s).pending.Pairwise (· < ·) := by
  refine List.foldlRecOn (motive := fun s : State V F σ => s.pending.Pairwise (· < ·)) l _ h fun t ih b _ => ?_
  unfold wake enqueue
  dsimp only
  split
  · exact insertRank_sorted ih
  · exact ih

end

theorem visit_sorted (h : s.pending.Pairwise (· < ·)) : (p.visit b input s).pending.Pairwise (· < ·) := by
  rw [visit_eq]
  split
  · exact enqueue_sorted _ (wake_sorted _ h)
  · exact wake_sorted _ h

omit [Domain V] [DecidableEq V] in
theorem Planned.rankOf_eq (hp : p.Planned) (h : b ∈ p.order) : p.rankOf b = p.order.idxOf b := by
  unfold rankOf
  rw [hp]
  exact Plan.rank_eq h

omit [Domain V] [DecidableEq V] in
/-- Ranks follow the order. -/
theorem Planned.rankOf_lt (hp : p.Planned) {earlier later : List BlockId} (split : p.order = earlier ++ b :: later) :
    (∀ c ∈ earlier, p.rankOf c < p.rankOf b) ∧ ∀ c ∈ later, p.rankOf b < p.rankOf c := by
  have placed : ∀ c, c ∈ earlier ∨ c = b ∨ c ∈ later → c ∈ p.order := fun c hc => by
    rw [split, List.mem_append, List.mem_cons]
    exact hc
  have nodup : (earlier ++ b :: later).Nodup := split ▸ p.plan.graph.nodup_reversePostorder
  have apart := (List.nodup_append.mp nodup).2.2
  have own : b ∉ earlier := fun h => apart b h b List.mem_cons_self rfl
  have here : p.rankOf b = earlier.length := by
    rw [hp.rankOf_eq (placed b (.inr (.inl rfl))), split, List.idxOf_append_of_notMem own, List.idxOf_cons_self,
      Nat.add_zero]
  constructor
  · intro c hc
    rw [here, hp.rankOf_eq (placed c (.inl hc)), split, List.idxOf_append_of_mem hc]
    exact List.idxOf_lt_length_of_mem hc
  · intro c hc
    have away : c ∉ earlier := fun h => apart c h c (List.mem_cons_of_mem _ hc) rfl
    have other : c ≠ b := fun e => (List.nodup_cons.mp (List.nodup_append.mp nodup).2.1).1 (e ▸ hc)
    rw [here, hp.rankOf_eq (placed c (.inr (.inr hc))), split, List.idxOf_append_of_notMem away,
      List.idxOf_cons_ne _ other.symm]
    omega

/-! ## Past and ahead -/

/-- A run has come past some blocks of the order, and has the rest ahead. -/
structure Passed (p : Solver V F σ) (s : State V F σ) (past ahead : List BlockId) : Prop where
  split : p.order = past ++ ahead
  tables : s.tables = past.foldl (p.plan.graph.passBlock p.client p.initial) (p.plan.graph.blankTables p.memory)
  sorted : s.pending.Pairwise (· < ·)
  pending : ∀ c ∈ p.order, p.rankOf c ∈ s.pending → c ∈ ahead
  waiting : ∀ c ∈ ahead, (p.incoming s c).isReachable = true → p.rankOf c ∈ s.pending
  visited : ∀ c, s.visited c = true → c ∈ past

structure Tallied (p : Solver V F σ) (s : State V F σ) : Prop where
  visits : s.stats.visits = p.plan.graph.blockIds.countP fun c => (s.input c).isReachable
  transfers : s.stats.transfers = p.plan.graph.nodeIds.countP fun n => (s.record n).before.isReachable
  widenings : s.stats.widenings = 0

/-- The blocks ahead of the first pending one are not reached, and those after it stay ahead. -/
theorem Passed.skip (hp : p.Planned) {past ahead : List BlockId} (h : Passed p s past ahead) {rest : List Nat}
    (placed : b ∈ p.order) (first : s.pending = p.rankOf b :: rest) :
    ∃ skipped ahead', ahead = skipped ++ b :: ahead' ∧
      Passed p s (past ++ skipped) (b :: ahead') ∧
        ∀ c ∈ p.order, p.rankOf c ∈ rest → c ∈ ahead' := by
  have here : b ∈ ahead := h.pending b placed (by rw [first]; exact List.mem_cons_self)
  obtain ⟨skipped, ahead', rfl⟩ := List.append_of_mem here
  have split : p.order = (past ++ skipped) ++ b :: ahead' := by rw [h.split, List.append_assoc]
  obtain ⟨before, after⟩ := hp.rankOf_lt split
  have sorted := h.sorted
  rw [first] at sorted
  have least := (List.pairwise_cons.mp sorted).1
  have waiting : ∀ c ∈ p.order, p.rankOf c ∈ s.pending → c ∈ b :: ahead' := fun c hc hr => by
    rw [split, List.mem_append] at hc
    refine hc.resolve_left fun early => ?_
    have lower := before c early
    rw [first] at hr
    rcases List.mem_cons.mp hr with same | later
    · omega
    · have := least _ later
      omega
  refine ⟨skipped, ahead', rfl, ⟨split, ?_, h.sorted, waiting, fun c hc => ?_, fun c hc => ?_⟩, fun c hc hr => ?_⟩
  · rw [List.foldl_append, ← h.tables, Flowgraph.foldl_passBlock_silent]
    intro c hc
    refine Bool.eq_false_iff.mpr fun reached => ?_
    have pending := h.waiting c (List.mem_append_left _ hc) reached
    have lower := before c (List.mem_append_right _ hc)
    rw [first] at pending
    rcases List.mem_cons.mp pending with same | later
    · omega
    · have := least _ later
      omega
  · exact h.waiting c (List.mem_append_right _ hc)
  · exact List.mem_append_left _ (h.visited c hc)
  · refine (List.mem_cons.mp (waiting c hc (by rw [first]; exact List.mem_cons_of_mem _ hr))).resolve_left ?_
    rintro rfl
    have := least _ hr
    omega

/-! ## One turn -/

section

variable {past ahead : List BlockId} (hp : p.Planned)

omit [Domain V] [DecidableEq V] in
theorem not_mem_loopHeads (loopless : p.plan.graph.loopHeads = []) (b : BlockId) : b ∉ p.plan.graph.loopHeads := by
  rw [loopless]
  exact List.not_mem_nil

include hp

/-- A visit sends its stores on to blocks ahead. -/
theorem flooded_ahead (loopless : p.plan.graph.loopHeads = [])
    (split : p.order = past ++ b :: ahead) (flooded : p.Flooded s b input c) : c ∈ ahead := by
  obtain ⟨-, target⟩ := flooded
  obtain ⟨e, he, rfl, rfl⟩ := Flowgraph.mem_targets.mp target
  have placed : e.source ∈ p.order := by
    rw [split]
    simp
  have lower : p.rankOf e.source < p.rankOf e.target := by
    unfold rankOf
    rw [hp]
    exact Plan.rank_lt he (not_mem_loopHeads loopless _) placed
  have reached : e.target ∈ past ++ e.source :: ahead := split ▸ Flowgraph.reversePostorder_closed he placed
  rcases List.mem_append.mp reached with early | later
  · have := (hp.rankOf_lt split).1 _ early
    omega
  · refine (List.mem_cons.mp later).resolve_left fun same => ?_
    rw [same] at lower
    omega

/-- No visit makes a block stale: what it changes is read ahead only. -/
theorem not_woken (ordered : p.plan.graph.InOrder) (shape : Shape p s)
    (split : p.order = past ++ b :: ahead) (visited : ∀ c, s.visited c = true → c ∈ past) (c : BlockId) :
    ¬p.Woken s b input c := by
  rintro ⟨again, m, changed, imported⟩
  have own := ((mem_changed shape.nodes m).mp changed).1
  have here : b ∈ p.order := by
    rw [split]
    simp
  have known : c = b ∨ c ∈ past := again.imp id (visited c)
  have there : c ∈ p.order := by
    rcases known with rfl | early
    · exact here
    · rw [split]
      exact List.mem_append_left _ early
  have lower := Flowgraph.inOrder_iff_order.mp ordered c there m imported b here own
  have ranks : p.rankOf b < p.rankOf c := by
    rw [hp.rankOf_eq here, hp.rankOf_eq there]
    exact lower
  rcases known with rfl | early
  · omega
  · have := (hp.rankOf_lt split).1 c early
    omega

omit hp in
/-- The block a run has come to is neither behind it nor further ahead. -/
theorem Passed.apart (h : Passed p s past (b :: ahead)) : b ∉ past ∧ b ∉ ahead := by
  have nodup : (past ++ b :: ahead).Nodup := h.split ▸ p.plan.graph.nodup_reversePostorder
  obtain ⟨-, rest, apart⟩ := List.nodup_append.mp nodup
  exact ⟨fun early => apart b early b List.mem_cons_self rfl, (List.nodup_cons.mp rest).1⟩

/-- What is reached further ahead than the first pending block is pending behind it. -/
theorem Passed.waiting_tail (h : Passed p s past (b :: ahead)) {rest : List Nat}
    (first : s.pending = p.rankOf b :: rest) (hc : c ∈ ahead) (reached : (p.incoming s c).isReachable = true) :
    p.rankOf c ∈ rest := by
  have placed : ∀ d ∈ b :: ahead, d ∈ p.order := fun d hd => h.split ▸ List.mem_append_right _ hd
  have pending := h.waiting c (List.mem_cons_of_mem _ hc) reached
  rw [first] at pending
  refine (List.mem_cons.mp pending).resolve_left fun same => ?_
  have own := hp.rankOf_inj (placed c (List.mem_cons_of_mem _ hc)) (placed b List.mem_cons_self) same
  exact h.apart.2 (own ▸ hc)

/-- A block taken off and left alone was not reached. -/
theorem Passed.idle (h : Passed p s past (b :: ahead)) (loopless : p.plan.graph.loopHeads = [])
    (taken : Taken p s b input s') (why : input = .unreachable ∨ s'.isCurrent b input = true)
    (later : ∀ c ∈ p.order, p.rankOf c ∈ s'.pending → c ∈ ahead) : Passed p s' (past ++ [b]) ahead := by
  obtain ⟨flows, rest, first, rfl⟩ := taken.of_plain hp (not_mem_loopHeads loopless b)
  have silent : (p.incoming s b).isReachable = false := by
    rcases why with nothing | current
    · rw [← flows, nothing]
      rfl
    · exact absurd (h.visited b (isCurrent_iff.mp current).1) h.apart.1
  have sorted := h.sorted
  rw [first] at sorted
  refine ⟨by rw [h.split]; simp, ?_, (List.pairwise_cons.mp sorted).2, later,
    fun c hc reached => h.waiting_tail hp first hc reached, fun c hc => List.mem_append_left _ (h.visited c hc)⟩
  rw [List.foldl_append, ← h.tables, Flowgraph.foldl_passBlock_silent]
  · rfl
  · intro c hc
    rw [List.mem_singleton.mp hc]
    exact silent

/-- A visit is one step of the pass. -/
theorem Passed.visit (h : Passed p s past (b :: ahead)) (loopless : p.plan.graph.loopHeads = [])
    (ordered : p.plan.graph.InOrder) (taken : Taken p s b input s') (shape : Shape p s') (live : input.isReachable = true)
    (later : ∀ c ∈ p.order, p.rankOf c ∈ s'.pending → c ∈ ahead) :
    Passed p (p.visit b input s') (past ++ [b]) ahead := by
  obtain ⟨rfl, rest, first, rfl⟩ := taken.of_plain hp (not_mem_loopHeads loopless b)
  have placed := taken.placed
  have inside : ∀ d ∈ b :: ahead, d ∈ p.order := fun d hd => h.split ▸ List.mem_append_right _ hd
  have asleep : ∀ c, ¬p.Woken { s with pending := rest } b (p.incoming s b) c :=
    not_woken hp ordered shape h.split h.visited
  have pending : ∀ c ∈ p.order, p.rankOf c ∈ (p.visit b (p.incoming s b) { s with pending := rest }).pending ↔
      p.rankOf c ∈ rest ∨ p.Flooded { s with pending := rest } b (p.incoming s b) c := by
    intro c hc
    rw [pending_visit hp shape placed]
    refine or_congr_right ⟨?_, fun flooded => ⟨c, .inr flooded, rfl⟩⟩
    rintro ⟨d, woken | flooded, same⟩
    · exact absurd woken (asleep d)
    · have there := inside d (List.mem_cons_of_mem _ (flooded_ahead hp loopless h.split flooded))
      rwa [hp.rankOf_inj hc there same]
  have sorted := h.sorted
  rw [first] at sorted
  refine ⟨by rw [h.split]; simp, ?_, visit_sorted (List.pairwise_cons.mp sorted).2, fun c hc hr => ?_,
    fun c hc reached => ?_, fun c hc => ?_⟩
  · rw [List.foldl_append, ← h.tables]
    exact tables_visit (s := { s with pending := rest }) shape.nodes live
  · rcases (pending c hc).mp hr with old | flooded
    · exact later c hc old
    · exact flooded_ahead hp loopless h.split flooded
  · refine (pending c (inside c (List.mem_cons_of_mem _ hc))).mpr ?_
    by_cases flooded : p.Flooded { s with pending := rest } b (p.incoming s b) c
    · exact .inr flooded
    · rw [incoming_visit shape placed flooded] at reached
      exact .inl (h.waiting_tail hp first hc reached)
  · rcases (visited_visit hp shape placed c).mp hc with rfl | old
    · simp
    · exact List.mem_append_left _ (h.visited c old)

omit hp in
/-- A first visit adds the block and the nodes it reaches to what has been reached. -/
theorem Tallied.visit (h : Tallied p s) (shape : Shape p s) (placed : b ∈ p.order) (new : s.visited b = false)
    (live : input.isReachable = true) : Tallied p (p.visit b input s) where
  visits := by
    have reached : ((p.visit b input s).input b).isReachable = true := by
      rw [input_visit shape placed, if_pos rfl]
      exact live
    have grown := countP_of_new p.plan.graph.blockIds [b]
      (p := fun c => (s.input c).isReachable) (q := fun c => ((p.visit b input s).input c).isReachable)
      Flowgraph.nodup_blockIds (List.nodup_singleton b)
      (fun c hc => by
        rw [List.mem_singleton.mp hc]
        exact Flowgraph.mem_blockIds.mpr (Flowgraph.hasBlock_of_mem_order placed))
      (fun c hc => by
        rw [List.mem_singleton.mp hc, State.input, shape.unvisited b new]
        rfl)
      (fun c hc => by rw [input_visit shape placed, if_neg fun e => hc (List.mem_singleton.mpr e)])
    rw [visit_visits, h.visits, grown]
    simp [reached]
  transfers := by
    have grown := countP_of_new p.plan.graph.nodeIds (p.plan.graph.nodesOf b)
      (p := fun n => (s.record n).before.isReachable) (q := fun n => ((p.visit b input s).record n).before.isReachable)
      (Flowgraph.nodup_nodeIds _) (Flowgraph.nodup_nodesOf b)
      (fun n hn => Flowgraph.mem_nodeIds hn)
      (fun n hn => by
        rw [shape.unrun n fun c hc => Flowgraph.block_unique hn hc ▸ new]
        rfl)
      (fun n hn => by rw [record_visit hn])
    rw [transfers_visit shape.nodes, grown, h.transfers]
  widenings := by
    rw [stats_visit, booked]
    exact h.widenings

theorem passed_invariant (loopless : p.plan.graph.loopHeads = []) (ordered : p.plan.graph.InOrder) :
    Invariant p fun s => Tallied p s ∧ ∃ past ahead, Passed p s past ahead where
  start := by
    refine ⟨⟨?_, ?_, rfl⟩, [], p.order, rfl, rfl, List.pairwise_singleton _ _, fun c hc _ => hc, fun c _ reached => ?_,
      fun c hc => ?_⟩
    · simp [start, State.input]
    · simp [start, State.record]
    · rcases incoming_reachable_iff.mp reached with ⟨rfl, -⟩ | ⟨e, -, -, out⟩
      · exact List.mem_singleton.mpr rfl
      · simp [start, State.exit] at out
    · simp [start, State.visited] at hc
  idle {s s' b input} _ h taken why := by
    obtain ⟨tallied, past, ahead, passed⟩ := h
    obtain ⟨skipped, ahead', -, here, later⟩ := passed.skip hp taken.placed taken.pending
    have moved := here.idle hp loopless taken why later
    obtain ⟨-, rest, -, rfl⟩ := taken.of_plain hp (not_mem_loopHeads loopless b)
    exact ⟨⟨tallied.visits, tallied.transfers, tallied.widenings⟩, _, _, moved⟩
  visit {s s' b input} shape h taken live new := by
    obtain ⟨tallied, past, ahead, passed⟩ := h
    obtain ⟨skipped, ahead', -, here, later⟩ := passed.skip hp taken.placed taken.pending
    have moved := here.visit hp loopless ordered taken shape live later
    have first : s.visited b = false :=
      Bool.eq_false_iff.mpr fun again => here.apart.1 (here.visited b again)
    obtain ⟨-, rest, -, rfl⟩ := taken.of_plain hp (not_mem_loopHeads loopless b)
    exact ⟨Tallied.visit ⟨tallied.visits, tallied.transfers, tallied.widenings⟩ shape taken.placed first live,
      _, _, moved⟩

omit hp in
/-- With nothing pending, nothing ahead is reached. -/
theorem Passed.quiet (h : Passed p s past ahead) (quiet : s.pending = []) :
    s.tables = p.plan.graph.onePass p.client p.memory p.initial := by
  show s.tables = p.order.foldl _ _
  rw [h.split, List.foldl_append, ← h.tables, Flowgraph.foldl_passBlock_silent]
  intro c hc
  refine Bool.eq_false_iff.mpr fun reached => ?_
  have pending := h.waiting c hc reached
  rw [quiet] at pending
  cases pending

omit hp [Domain V] [DecidableEq V] in
/-- No more visits have been made than there are blocks in the order. -/
theorem Tallied.visits_le (h : Tallied p s) (shape : Shape p s) : s.stats.visits ≤ p.order.length := by
  rw [h.visits, List.countP_eq_length_filter]
  refine (List.subperm_of_subset (Flowgraph.nodup_blockIds.filter _) fun c hc => ?_).length_le
  exact shape.placed c ((shape.reached_iff c).mp (List.mem_filter.mp hc).2)

end

end Solver

/-! ## Graphs without loops -/

/-- Without loop heads and with operands in order, a run is one pass over the reachable blocks in
reverse postorder. It visits the blocks that are reached, transfers the nodes that are reached,
widens nothing, and ends by itself. A client remembers the same of both, whatever it takes down: it was
applied to the same nodes in the same order, and told the same. -/
theorem Flowgraph.onePass_of_loopless {g : Flowgraph} (f : Client V F σ) (memory : σ) (initial : Store V)
    (limits : Limits) (loopless : g.loopHeads = []) (ordered : g.InOrder)
    (room : g.reversePostorder.length ≤ limits.maxVisits.toNat) :
    let r := (g.analyzeWith f memory initial limits).1
    let pass := g.onePass f memory initial
    r.blocks = pass.blocks ∧ r.nodes = pass.nodes ∧ (g.analyzeWith f memory initial limits).2 = pass.memory ∧
      r.stats =
        { visits := g.blockIds.countP r.reaches
          transfers := g.nodes.toList.countP fun node => (r.node node.id).before.isReachable
          widenings := 0
          converged := true } := by
  intro r pass
  let p := g.problemWith f memory initial limits.widenDelay.toNat limits.maxVisits.toNat
  have hp : p.Planned := rfl
  have invariant := Solver.passed_invariant hp loopless ordered
  rcases p.run_ends with ⟨k, quiet, -, last⟩ | ⟨k, b, input, s', turn, spent, -⟩
  · obtain ⟨tallied, past, ahead, passed⟩ := invariant.after hp k
    have same : r = (p.after k).result := congrArg Solver.State.result last
    have tables : (p.after k).tables = pass := passed.quiet quiet
    have remembered : (g.analyzeWith f memory initial limits).2 = pass.memory :=
      (congrArg Solver.State.memory last).trans (congrArg Tables.memory tables)
    rw [same]
    refine ⟨congrArg Tables.blocks tables, congrArg Tables.nodes tables, remembered, ?_⟩
    have transfers := tallied.transfers
    rw [Flowgraph.nodeIds, List.countP_map] at transfers
    show (p.after k).stats = _
    rw [show (p.after k).stats = ⟨_, _, _, _⟩ from rfl, tallied.visits, transfers, tallied.widenings,
      (Solver.after_shape hp k).converged]
    rfl
  · -- the visit that was refused had room
    have shape := Solver.after_shape hp k
    obtain ⟨taken, live, new⟩ := hp.taken_of_visit shape turn
    have now := taken.shape shape
    have next := (invariant.visit now (invariant.after hp k) taken live new).1
    have few := next.visits_le (Solver.visit_shape hp now taken.placed live)
    rw [p.visit_visits, p.turn_visit turn] at few
    have cap : p.order.length ≤ p.maxVisits := room
    omega

/-- Compares a parameter to a number, makes an object on one branch, and joins the two. -/
def diamond : Flowgraph where
  blocks := #[{ id := ⟨0⟩, role := .entry, nodes := [⟨0⟩, ⟨1⟩, ⟨2⟩] }, { id := ⟨1⟩, nodes := [⟨3⟩] },
    { id := ⟨2⟩, nodes := [⟨4⟩] }, { id := ⟨3⟩, nodes := [⟨5⟩] }, { id := ⟨4⟩, nodes := [⟨6⟩] }]
  nodes := #[{ id := ⟨0⟩, operation := .read (.local "n") }, { id := ⟨1⟩, operation := .literal (.int 3) },
    { id := ⟨2⟩, operation := .binary .eq ⟨0⟩ ⟨1⟩ }, { id := ⟨3⟩, operation := .allocate "E" [] },
    { id := ⟨4⟩, operation := .assign (.local "x") ⟨1⟩ }, { id := ⟨5⟩, operation := .read (.local "x") },
    { id := ⟨6⟩, operation := .handler "e" none }]
  edges := [⟨⟨0⟩, ⟨1⟩, .whenTrue⟩, ⟨⟨0⟩, ⟨2⟩, .whenFalse⟩, ⟨⟨1⟩, ⟨3⟩, .normal⟩, ⟨⟨2⟩, ⟨3⟩, .normal⟩,
    ⟨⟨1⟩, ⟨4⟩, .exceptional⟩, ⟨⟨4⟩, ⟨3⟩, .normal⟩]
  checked := by decide

theorem diamond_onePass :
    let ran := diamond.analyzeWith Counting.client 0 .blank {}
    let pass := diamond.onePass Counting.client 0 .blank
    diamond.loopHeads = [] ∧ diamond.InOrder ∧ ran.1.blocks = pass.blocks ∧ ran.2 = pass.memory ∧
      ran.1.stats.visits = diamond.blockIds.countP ran.1.reaches ∧ ran.2 = 7 := by
  intro ran pass
  have loopless : diamond.loopHeads = [] := by cbv
  have order : diamond.reversePostorder = [⟨0⟩, ⟨2⟩, ⟨1⟩, ⟨4⟩, ⟨3⟩] := by cbv
  have ordered : diamond.InOrder := by
    rw [Flowgraph.inOrder_iff_order, order]
    decide
  have room : diamond.reversePostorder.length ≤ (10000 : UInt64).toNat := by
    rw [order]
    decide
  have applications : pass.memory = 7 := by
    show (diamond.onePass Counting.client 0 .blank).memory = 7
    rw [Flowgraph.onePass, order]
    rfl
  obtain ⟨blocks, -, memory, stats⟩ := Flowgraph.onePass_of_loopless Counting.client 0 .blank {} loopless ordered room
  exact ⟨loopless, ordered, blocks, memory, congrArg Stats.visits stats, memory.trans applications⟩

end FlowCheck
