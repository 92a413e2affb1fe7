/-
  FlowCheck.Proofs.Unreached — nothing is computed at points that are not reached.

  A block has an unreachable input as long as it is not visited (`visited_after_iff`), and its exit
  and nodes are blank until then. A visit starts its nodes where the block starts, each next one
  where the one before it ended, and leaves the block where the last one ended (`Threaded`). A node
  that is not reached, because one before it did not complete, is left blank, whatever an earlier
  visit made of it (`Laid`). All this holds between any two turns, so it holds of every outcome,
  be the run given up or not.

  The client is applied to the nodes whose record says that they are reached, once each and in their
  order, at the stores recorded before them: a client that takes down what it is asked has that list
  after a visit (`log_visit`). What a client would say of an unreachable store makes no difference to a
  run, nor to what it remembers of it.
-/

import FlowCheck.Proofs.Convergence
import FlowCheck.Proofs.Simulation

namespace FlowCheck

variable {V F σ : Type}

/-- The first record starts from `entered`, each next one from where the one before it ended, and the
last one ended in `left`. -/
def Threaded (entered : Store V) (records : List (NodeRecord V F)) (left : Store V) : Prop :=
  match records with
  | [] => left = entered
  | r :: rest => r.before = entered ∧ Threaded r.after rest left

variable [Domain V] [DecidableEq V]

namespace Solver

variable {p : Solver V F σ} {s s' : State V F σ} {b : BlockId} {input : Store V}

/-! ## Visits leave threaded records -/

theorem threaded_foldl {l : List NodeId} {w : Sweep V F σ} (h : Ready p.plan.graph l w.nodes) :
    Threaded w.outflow.merged (l.map fun n => (l.foldl p.sweepNode w).nodes.get n.index)
      (l.foldl p.sweepNode w).outflow.merged := by
  induction l generalizing w with
  | nil => rfl
  | cons n l ih =>
    have head := h.get_foldl_head
    obtain ⟨node, hn⟩ := h.head_eq
    have out : (p.sweepNode w n).outflow = (p.nextEffect w n).outflow := by rw [sweepNode_eq hn]
    have rest := ih h.tail
    rw [out] at rest
    rw [List.map_cons, head]
    exact ⟨rfl, rest⟩

theorem threaded_sweep {t : Slots (NodeRecord V F)} {m₀ : σ} (size : t.size = p.plan.graph.nodes.size) :
    Threaded input ((p.plan.graph.nodesOf b).map fun n => (p.sweep b input t m₀).nodes.get n.index)
      (p.sweep b input t m₀).exit.normal :=
  threaded_foldl (w := { memory := m₀, nodes := t, outflow := .same input }) (ready_nodesOf size b)

/-- A node that a sweep does not reach is left blank. -/
theorem blank_sweep {t : Slots (NodeRecord V F)} {m₀ : σ} (size : t.size = p.plan.graph.nodes.size) {n : NodeId}
    (hn : n ∈ p.plan.graph.nodesOf b) (unreached : ((p.sweep b input t m₀).nodes.get n.index).before = .unreachable) :
    (p.sweep b input t m₀).nodes.get n.index = {} := by
  obtain ⟨m, look, record⟩ := exists_effect_sweep input m₀ size hn
  rw [unreached, Flowgraph.effectAt_unreachable] at record
  exact record

/-! ## Between two turns -/

/-- The records of visited blocks are threaded, and those of nodes that are not reached are blank. -/
structure Laid (p : Solver V F σ) (s : State V F σ) : Prop where
  threaded : ∀ b, s.visited b = true →
    Threaded (s.input b) ((p.plan.graph.nodesOf b).map s.record) (s.exit b).normal
  blank : ∀ n, (s.record n).before = .unreachable → s.record n = {}

omit [Domain V] [DecidableEq V] in
theorem SameAnswers.laid (same : SameAnswers s s') (h : Laid p s) : Laid p s' where
  threaded c hc := by
    have records : s'.record = s.record := by unfold State.record; rw [same.nodes]
    rw [same.visited] at hc
    rw [same.input_eq, records, State.exit, same.blocks]
    exact h.threaded c hc
  blank n := by
    rw [State.record, same.nodes]
    exact h.blank n

theorem laid_visit (hp : p.Planned) (shape : Shape p s) (placed : b ∈ p.order) (h : Laid p s) :
    Laid p (p.visit b input s) where
  threaded c hc := by
    rw [input_visit shape placed, exit_visit shape placed]
    by_cases own : c = b
    · subst own
      rw [if_pos rfl, if_pos rfl]
      unfold State.record
      rw [nodes_visit]
      exact threaded_sweep shape.nodes
    · rw [if_neg own, if_neg own]
      have visited := ((visited_visit hp shape placed c).mp hc).resolve_left own
      have records : (p.plan.graph.nodesOf c).map (p.visit b input s).record = (p.plan.graph.nodesOf c).map s.record :=
        List.map_congr_left fun n hn => record_visit fun hb => own (Flowgraph.block_unique hn hb)
      rw [records]
      exact h.threaded c visited
  blank n unreached := by
    by_cases hn : n ∈ p.plan.graph.nodesOf b
    · rw [State.record, nodes_visit] at unreached ⊢
      exact blank_sweep shape.nodes hn unreached
    · rw [record_visit hn] at unreached ⊢
      exact h.blank n unreached

theorem laid_invariant (hp : p.Planned) : Invariant p (Laid p) where
  start := ⟨fun b hb => by simp [State.visited, start] at hb, fun n _ => Slots.get_filled _ _ _⟩
  idle _ h taken _ := taken.sameAnswers.laid h
  visit shape h taken _ _ := laid_visit hp shape taken.placed (taken.sameAnswers.laid h)

/-! ## Which blocks a run visits -/

/-- A run of `p` makes a visit to `b`: one is due in some state, and the cap allows for it. -/
def Visits (p : Solver V F σ) (b : BlockId) : Prop :=
  ∃ k input t, p.turn (p.after k) = .visit b input t ∧ t.stats.visits < p.maxVisits

theorem visited_after_iff (hp : p.Planned) (k : Nat) (b : BlockId) :
    (p.after k).visited b = true ↔ ∃ j < k, ∃ input t, p.turn (p.after j) = .visit b input t := by
  induction k with
  | zero => simp [after, State.visited, start]
  | succ k ih =>
    have shape := after_shape hp k
    simp only [Nat.lt_succ_iff_lt_or_eq, or_and_right, exists_or, exists_eq_left]
    rw [← ih, after_succ, step]
    rcases turn_cases hp shape with ⟨-, turn⟩ | ⟨c, input, t, taken, ⟨turn, -⟩ | ⟨turn, -, -⟩⟩
    · simp [turn]
    · simp [turn, taken.sameAnswers.visited]
    · rw [turn]
      simp only [visited_visit hp (taken.shape shape) taken.placed, taken.sameAnswers.visited, Turn.visit.injEq]
      grind

/-- A run ends with the answers of a state in which the visited blocks are those it has visited. -/
theorem solve_visited (hp : p.Planned) :
    ∃ k, p.solve.blocks = (p.after k).blocks ∧ p.solve.nodes = (p.after k).nodes ∧
      ∀ b, (p.after k).visited b = true ↔ p.Visits b := by
  obtain ⟨k, blocks, nodes, room, ended⟩ := solve_answers hp
  refine ⟨k, blocks, nodes, fun b => ?_⟩
  rw [visited_after_iff hp]
  constructor
  · rintro ⟨j, early, input, t, turn⟩
    have := visits_lt turn early
    exact ⟨j, input, t, turn, by rw [p.turn_visit turn]; omega⟩
  · rintro ⟨j, input, t, turn, allowed⟩
    refine ⟨j, ?_, input, t, turn⟩
    rcases ended with quiet | spent
    · exact lt_of_quiet quiet turn
    · by_contra late
      have := p.visits_mono (Nat.le_of_not_lt late)
      rw [p.turn_visit turn] at allowed
      omega

/-! ## What the client is asked -/

end Solver

/-- The client that takes down which node it was applied to, and at which store. -/
def Client.logged (f : Client V F σ) : Client V F (σ × List (NodeId × Store V)) := fun m node sit =>
  ((f m.1 node sit).1, (f m.1 node sit).2, m.2 ++ [(node.id, sit.store)])

omit [Domain V] [DecidableEq V] in
theorem Client.logged_matches (g : Flowgraph) (f : Client V F σ) :
    f.Matches g (fun m m' => m'.1 = m ∧ ∀ x ∈ m'.2, x.2.isReachable = true) f.logged := by
  rintro _ m' ⟨rfl, reached⟩ node - sit live
  refine ⟨rfl, rfl, ?_⟩
  intro x hx
  rcases List.mem_append.mp hx with hx | hx
  · exact reached x hx
  · rw [List.mem_singleton.mp hx]
    exact live

omit [Domain V] [DecidableEq V] in
theorem Flowgraph.memoryAt_logged {g : Flowgraph} {n : NodeId} {node : Node} (hn : g.node? n = some node)
    (f : Client V F σ) (m : σ × List (NodeId × Store V)) (look : NodeId → V) (store : Store V) :
    (g.memoryAt f.logged m look n store).2 = m.2 ++ if store.isReachable then [(n, store)] else [] := by
  cases store with
  | unreachable =>
    rw [memoryAt_unreachable]
    exact (List.append_nil _).symm
  | known facts =>
    have own : node.id = n := NodeId.index_inj.mp (node_id hn)
    simp only [memoryAt, hn, Client.logged, own]
    rfl

namespace Solver

section

variable {p : Solver V F (σ × List (NodeId × Store V))} {f : Client V F σ} (watched : p.client = f.logged)

include watched

theorem log_foldl {l : List NodeId} {w : Sweep V F (σ × List (NodeId × Store V))} (h : Ready p.plan.graph l w.nodes) :
    (l.foldl p.sweepNode w).memory.2 =
      w.memory.2 ++ (l.filter fun n => ((l.foldl p.sweepNode w).nodes.get n.index).before.isReachable).map fun n =>
        (n, ((l.foldl p.sweepNode w).nodes.get n.index).before) := by
  induction l generalizing w with
  | nil => simp
  | cons n l ih =>
    obtain ⟨node, hn⟩ := h.head_eq
    have head := congrArg NodeRecord.before h.get_foldl_head
    have noted : (p.sweepNode w n).memory.2 =
        w.memory.2 ++ if w.outflow.merged.isReachable then [(n, w.outflow.merged)] else [] := by
      rw [sweepNode_eq hn, ← Flowgraph.memoryAt_logged hn f w.memory (tableValue w.nodes), ← watched]
      rfl
    rw [List.foldl_cons] at head ⊢
    rw [ih h.tail, noted, List.filter_cons, head]
    by_cases live : w.outflow.merged.isReachable = true
    · simp [NodeRecord.of, live, head]
    · simp [NodeRecord.of, live]

/-- A visit applies the client to the nodes that it reaches, in order, each at the store before it. -/
theorem log_visit {s : State V F (σ × List (NodeId × Store V))} {b : BlockId} {input : Store V}
    (size : s.nodes.size = p.plan.graph.nodes.size) :
    (p.visit b input s).memory.2 =
      s.memory.2 ++ ((p.plan.graph.nodesOf b).filter fun n => ((p.visit b input s).record n).before.isReachable).map
        fun n => (n, ((p.visit b input s).record n).before) := by
  unfold State.record
  rw [memory_visit, nodes_visit]
  exact log_foldl (w := { memory := s.memory, nodes := s.nodes, outflow := .same input }) watched (ready_nodesOf size b)

/-- Every application is counted. -/
theorem logged_invariant (blank : p.memory.2 = []) :
    Invariant p fun s => s.memory.2.length = s.stats.transfers where
  start := by simp [start, blank]
  idle {s s' b input} _ h taken _ := by
    rw [taken.sameAnswers.memory, taken.counted.1]
    exact h
  visit {s s' b input} shape h taken _ _ := by
    rw [log_visit watched shape.nodes, transfers_visit shape.nodes, List.length_append, List.length_map,
      ← List.countP_eq_length_filter, taken.sameAnswers.memory, taken.counted.1, h]

end

end Solver

theorem Flowgraph.log_length (g : Flowgraph) (f : Client V F σ) (memory : σ) (initial : Store V) (limits : Limits) :
    let watched := g.analyzeWith f.logged (memory, []) initial limits
    watched.2.2.length = watched.1.stats.transfers := by
  intro watched
  let p := g.problemWith f.logged (memory, []) initial limits.widenDelay.toNat limits.maxVisits.toNat
  have hp : p.Planned := rfl
  have counted := (Solver.logged_invariant (p := p) rfl rfl).after hp
  have last : watched = ((p.run p.start).result, (p.run p.start).memory) := rfl
  rw [last]
  rcases p.run_ends with ⟨k, -, -, e⟩ | ⟨k, b, input, t, turn, -, e⟩
  · rw [e]
    exact counted k
  · have taken := (hp.taken_of_visit (Solver.after_shape hp k) turn).1
    rw [e]
    show t.memory.2.length = t.stats.transfers
    rw [taken.sameAnswers.memory, taken.counted.1]
    exact counted k

/-! ## Every outcome -/

/-- Of whatever run, given up or not, and whatever the client remembers:
- a block has an unreachable input exactly if it was never visited, and then unreachable exits;
- nothing is recorded of a node in no block, of a node in a block that is not reached, and of a node that
  is not reached itself;
- the records of a visited block are threaded from its input to its normal exit;
- a visit applies the client once to each node of the block that it reaches, and to no other;
- a client that takes down its applications sees the same run, and notes as many as are counted, none of
  them at an unreachable store;
- what the client says of unreachable stores makes no difference, to the outcome or to what it remembers;
- what flows into a block is reachable exactly if one of the stores that flow in is. -/
theorem Flowgraph.nothing_unreached (g : Flowgraph) (f : Client V F σ) (memory : σ) (initial : Store V)
    (limits : Limits) :
    let p := g.problemWith f memory initial limits.widenDelay.toNat limits.maxVisits.toNat
    let r := (g.analyzeWith f memory initial limits).1
    let watched := g.analyzeWith f.logged (memory, []) initial limits
    (∀ b, ((r.block b).input = .unreachable ↔ ¬p.Visits b) ∧
        ((r.block b).input = .unreachable → (r.block b).exit = {})) ∧
      (∀ n, (∀ b, n ∉ g.nodesOf b) ∨ (∃ b, n ∈ g.nodesOf b ∧ (r.block b).input = .unreachable) ∨
        (r.node n).before = .unreachable → r.node n = {}) ∧
      (∀ b, p.Visits b → Threaded (r.block b).input ((g.nodesOf b).map r.node) (r.block b).exit.normal) ∧
      (∀ k b input t, p.turn (p.after k) = .visit b input t →
        (p.visit b input t).stats.transfers = t.stats.transfers +
          (g.nodesOf b).countP fun n => ((p.visit b input t).record n).before.isReachable) ∧
      (watched.1 = r ∧ watched.2.1 = (g.analyzeWith f memory initial limits).2 ∧
        watched.2.2.length = r.stats.transfers ∧ ∀ x ∈ watched.2.2, x.2.isReachable = true) ∧
      (∀ f' : Client V F σ, (∀ m node sit, sit.store.isReachable = true → f' m node sit = f m node sit) →
        g.analyzeWith f' memory initial limits = g.analyzeWith f memory initial limits) ∧
      ∀ k b, (p.incoming (p.after k) b).isReachable = (p.inflow (p.after k) b).any Store.isReachable := by
  intro p r watched
  have hp : p.Planned := rfl
  obtain ⟨k, blocks, nodes, visits⟩ := Solver.solve_visited hp
  have shape := Solver.after_shape hp k
  have laid := (Solver.laid_invariant hp).after hp k
  have block : ∀ b, r.block b = (p.after k).blocks.get b.index := fun b => congrArg (·.get b.index) blocks
  have node : r.node = (p.after k).record := funext fun n => congrArg (·.get n.index) nodes
  have reached : ∀ b, (r.block b).input = .unreachable ↔ (p.after k).visited b = false := fun b => by
    rw [block, ← Store.not_isReachable_iff, Bool.eq_false_iff, Bool.eq_false_iff]
    exact not_congr (shape.reached_iff b)
  refine ⟨fun b => ⟨?_, fun away => ?_⟩, fun n why => ?_, fun b visited => ?_, fun j b input t turn => ?_, ?_,
    fun f' agree => analyzeWith_of_agree (fun m node _ => agree m node) memory initial limits,
    fun j b => Store.isReachable_joinAll _⟩
  · rw [reached, ← visits, Bool.not_eq_true]
  · rw [block, shape.unvisited b ((reached b).mp away)]
  · rw [node] at why ⊢
    rcases why with unplaced | ⟨b, hn, away⟩ | unreached
    · exact shape.unrun n fun b hb => absurd hb (unplaced b)
    · exact shape.unrun n fun c hc => Flowgraph.block_unique hn hc ▸ (reached b).mp away
    · exact laid.blank n unreached
  · rw [block, node]
    exact laid.threaded b ((visits b).mpr visited)
  · have size := ((hp.taken_of_visit (Solver.after_shape hp j) turn).1.shape (Solver.after_shape hp j)).nodes
    exact Solver.transfers_visit size
  · obtain ⟨same, remembered, noted⟩ := analyzeWith_matched (f.logged_matches g) memory (memory, [])
      ⟨rfl, nofun⟩ initial limits
    have counted : watched.2.2.length = watched.1.stats.transfers := g.log_length f memory initial limits
    exact ⟨same, remembered, counted.trans (congrArg (·.stats.transfers) same), noted⟩

/-- Raises a literal before its first block ends; the blocks after it are a way on that is not taken, a
handler, and one that nothing leads to. A node is placed in no block. -/
def brokenOff : Flowgraph where
  blocks := #[{ id := ⟨0⟩, role := .entry, nodes := [⟨0⟩, ⟨1⟩, ⟨2⟩] }, { id := ⟨1⟩, role := .exit, nodes := [⟨3⟩] },
    { id := ⟨2⟩, role := .exceptionalExit, nodes := [⟨4⟩] }, { id := ⟨3⟩, nodes := [⟨5⟩] }]
  nodes := #[{ id := ⟨0⟩, operation := .literal (.int 1) }, { id := ⟨1⟩, operation := .raise ⟨0⟩ },
    { id := ⟨2⟩, operation := .literal (.int 2) }, { id := ⟨3⟩, operation := .read (.local "x") },
    { id := ⟨4⟩, operation := .handler "x" none }, { id := ⟨5⟩, operation := .literal (.int 3) },
    { id := ⟨6⟩, operation := .literal (.int 4) }]
  edges := [⟨⟨0⟩, ⟨1⟩, .normal⟩, ⟨⟨0⟩, ⟨2⟩, .exceptional⟩, ⟨⟨3⟩, ⟨1⟩, .normal⟩]
  checked := by decide

/-- Counts its applications, and makes up an answer and a count for unreachable stores. -/
def talkative : Client Count String Nat := fun applications node sit =>
  if sit.store.isReachable then Counting.client applications node sit
  else ({ outflow := .same .blank, facts := ["made up"] }, 100)

theorem nothing_unreached_brokenOff :
    let p := brokenOff.problemWith Counting.client 0 .blank 0 10000
    let ran := brokenOff.analyzeWith Counting.client 0 .blank {}
    let watched := brokenOff.analyzeWith Counting.client.logged (0, []) .blank {}
    let r := ran.1
    ((r.block ⟨1⟩).input = .unreachable ∧ ¬p.Visits ⟨1⟩ ∧ (r.block ⟨1⟩).exit = {}) ∧
      (r.node ⟨2⟩ = {} ∧ r.node ⟨3⟩ = {} ∧ r.node ⟨6⟩ = {}) ∧
      (p.Visits ⟨0⟩ ∧ (r.node ⟨0⟩).before = .blank ∧ (r.node ⟨1⟩).before = (r.node ⟨0⟩).after ∧
        (r.node ⟨2⟩).before = (r.node ⟨1⟩).after) ∧
      (∃ input t, (p.visit ⟨0⟩ input t).stats.transfers = t.stats.transfers +
        (brokenOff.nodesOf ⟨0⟩).countP fun n => ((p.visit ⟨0⟩ input t).record n).before.isReachable) ∧
      (ran.2 = 3 ∧ watched.2.1 = 3 ∧ watched.2.2.length = 3 ∧ ∀ x ∈ watched.2.2, x.2.isReachable = true) ∧
      brokenOff.analyzeWith talkative 0 .blank {} = ran := by
  intro p ran watched r
  have input : (r.block ⟨0⟩).input = .blank := by cbv
  have away : (r.block ⟨1⟩).input = .unreachable := by cbv
  have unreached : (r.node ⟨2⟩).before = .unreachable := by cbv
  have applications : ran.2 = 3 := by
    show (brokenOff.analyzeWith Counting.client 0 .blank {}).2 = 3
    cbv
  have transfers : r.stats.transfers = 3 := by cbv
  obtain ⟨blocks, nodes, threaded, applied, ⟨-, remembered, noted, reached⟩, asked, -⟩ :=
    Flowgraph.nothing_unreached brokenOff Counting.client 0 .blank {}
  have visited : p.Visits ⟨0⟩ := by
    by_contra unvisited
    rw [(blocks ⟨0⟩).1.mpr unvisited] at input
    cases input
  have unplaced : ∀ b, (⟨6⟩ : NodeId) ∉ brokenOff.nodesOf b := fun b hb => by
    have placed : (⟨6⟩ : NodeId) ∈ brokenOff.placements.map (·.2) :=
      List.mem_map.mpr ⟨_, Flowgraph.mem_nodesOf.mp hb, rfl⟩
    revert placed
    decide
  have agree : ∀ m node sit, sit.store.isReachable = true → talkative m node sit = Counting.client m node sit :=
    fun m node sit live => if_pos live
  obtain ⟨first, second, third, -⟩ := threaded ⟨0⟩ visited
  obtain ⟨k, entered, t, turn, allowed⟩ := visited
  exact ⟨⟨away, (blocks _).1.mp away, (blocks _).2 away⟩,
    ⟨nodes _ (.inr (.inr unreached)), nodes _ (.inr (.inl ⟨⟨1⟩, by decide, away⟩)), nodes _ (.inl unplaced)⟩,
    ⟨⟨k, entered, t, turn, allowed⟩, first.trans input, second, third⟩, ⟨entered, t, applied k _ _ _ turn⟩,
    ⟨applications, remembered.trans applications, noted.trans transfers, reached⟩, asked talkative agree⟩

end FlowCheck
