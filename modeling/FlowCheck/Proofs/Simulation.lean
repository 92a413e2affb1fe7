/-
  FlowCheck.Proofs.Simulation — two clients under one problem.

  What a turn takes off, whom a visit tells and when a run stops depends on the exits of blocks and on
  which values change; the solver never looks at the records themselves, nor at what its client
  remembers. So let a relation between the tables and memories of two runs be kept whenever both run a
  node, and let the node make the same difference in both otherwise (`Simulates`). Then the runs go from
  state to state together, and end alike (`run_simulated`).

  Two clients that answer alike wherever a run may ask them are one instance (`analyzeWith_matched`): a
  run asks about nodes of its graph at reachable stores.
-/

import FlowCheck.Proofs.Runs

namespace FlowCheck

variable {V F σ ρ : Type}

namespace Solver

def instructed (p : Solver V F σ) (client : Client V F ρ) (memory : ρ) : Solver V F ρ :=
  { plan := p.plan, client, memory, initial := p.initial, widenDelay := p.widenDelay, maxVisits := p.maxVisits }

/-- The same state, but for the table of nodes and the memory. -/
def State.over (s : State V F σ) (nodes : Slots (NodeRecord V F)) (memory : ρ) : State V F ρ :=
  { s with nodes, memory }

def Sweep.over (w : Sweep V F σ) (nodes : Slots (NodeRecord V F)) (memory : ρ) : Sweep V F ρ :=
  { w with nodes, memory }

def Turn.over (nodes : Slots (NodeRecord V F)) (memory : ρ) : Turn V F σ → Turn V F ρ
  | .done => .done
  | .idle s => .idle (s.over nodes memory)
  | .visit b input s => .visit b input (s.over nodes memory)

variable [Domain V] [DecidableEq V] {p : Solver V F σ} {f : Client V F ρ} {m₀ : ρ}
  {R : Slots (NodeRecord V F) → σ → Slots (NodeRecord V F) → ρ → Prop}

/-! ## What does not depend on tables and memories -/

section

variable (p : Solver V F σ) (f : Client V F ρ) (m₀ : ρ)

/-- What is taken off, and what with. -/
theorem intake_over (b : BlockId) (s : State V F σ) (t : Slots (NodeRecord V F)) (m : ρ) :
    (p.instructed f m₀).intake b (s.over t m) = ((p.intake b s).1, (p.intake b s).2.over t m) := by
  have incoming : (p.instructed f m₀).incoming (s.over t m) b = p.incoming s b := rfl
  unfold intake
  rw [incoming]
  unfold State.over instructed
  dsimp only
  split_ifs <;> rfl

theorem turn_over (s : State V F σ) (t : Slots (NodeRecord V F)) (m : ρ) :
    (p.instructed f m₀).turn (s.over t m) = (p.turn s).over t m := by
  have current (s : State V F σ) (b input) : (s.over t m).isCurrent b input = s.isCurrent b input := rfl
  have pending : (s.over t m).pending = s.pending := rfl
  have order : (p.instructed f m₀).plan.order = p.plan.order := rfl
  have taken (rest) : { s.over t m with pending := rest } = State.over { s with pending := rest } t m := rfl
  unfold turn
  rw [pending]
  cases s.pending with
  | nil => rfl
  | cons r rest =>
    dsimp only
    rw [order]
    cases p.plan.order[r]? with
    | none => rfl
    | some b =>
      dsimp only
      rw [taken]
      simp only [intake_over p f m₀, current]
      split_ifs <;> rfl

omit [Domain V] [DecidableEq V] in
theorem wakes_over (l : List BlockId) (s : State V F σ) (t : Slots (NodeRecord V F)) (m : ρ) :
    l.foldl (p.instructed f m₀).wake (s.over t m) = (l.foldl p.wake s).over t m := by
  induction l generalizing s with
  | nil => rfl
  | cons b l ih =>
    have one : (p.instructed f m₀).wake (s.over t m) b = (p.wake s b).over t m := by
      unfold wake State.over
      dsimp only
      split_ifs <;> rfl
    rw [List.foldl_cons, one, ih]
    rfl

omit [Domain V] [DecidableEq V] in
theorem enqueues_over (l : List BlockId) (s : State V F σ) (t : Slots (NodeRecord V F)) (m : ρ) :
    l.foldl (p.instructed f m₀).enqueue (s.over t m) = (l.foldl p.enqueue s).over t m := by
  induction l generalizing s with
  | nil => rfl
  | cons b l ih => exact ih (p.enqueue s b)

end

/-- Before a visit is made nothing is written, and nothing new is remembered. -/
theorem turn_keeps {s s' : State V F σ} (h : p.turn s = .idle s' ∨ ∃ b input, p.turn s = .visit b input s') :
    s'.nodes = s.nodes ∧ s'.memory = s.memory := by
  unfold turn at h
  cases pending : s.pending with
  | nil => simp [pending] at h
  | cons r rest =>
    simp only [pending] at h
    cases found : p.plan.order[r]? with
    | none =>
      simp only [found, Turn.idle.injEq, reduceCtorEq, exists_const, or_false] at h
      subst h
      exact ⟨rfl, rfl⟩
    | some b =>
      have same := (p.intake_spec b { s with pending := rest }).sameAnswers.1
      have kept := And.intro same.nodes same.memory
      simp only [found] at h
      generalize p.intake b { s with pending := rest } = taken at h kept
      obtain ⟨input, u⟩ := taken
      dsimp only at h kept
      split at h
      · obtain rfl : u = s' := by simpa using h
        exact kept
      · obtain rfl : u = s' := by
          obtain ⟨_, _, e⟩ := h.resolve_left (by simp)
          exact (Turn.visit.inj e).2.2
        exact kept

/-! ## Runs together -/

section

variable {s s' : State V F σ} {b : BlockId} {input : Store V}

theorem run_eq (p : Solver V F σ) (s : State V F σ) :
    p.run s =
      match p.turn s with
      | .done => s
      | .idle s' => p.run s'
      | .visit b input s' =>
        if p.maxVisits ≤ s'.stats.visits then { s' with stats := { s'.stats with converged := false } }
        else p.run (p.visit b input s') := by
  rw [run]
  split <;> rename_i turn <;> rw [turn]

theorem run_done (turn : p.turn s = .done) : p.run s = s := by
  rw [run_eq, turn]

theorem run_idle (turn : p.turn s = .idle s') : p.run s = p.run s' := by
  rw [run_eq, turn]

theorem run_refused (turn : p.turn s = .visit b input s') (spent : p.maxVisits ≤ s'.stats.visits) :
    p.run s = { s' with stats := { s'.stats with converged := false } } := by
  rw [run_eq, turn]
  exact if_pos spent

theorem run_visit (turn : p.turn s = .visit b input s') (room : ¬p.maxVisits ≤ s'.stats.visits) :
    p.run s = p.run (p.visit b input s') := by
  rw [run_eq, turn]
  exact if_neg room

end

/-- Running a node in related sweeps leaves related sweeps. -/
def Simulates (p : Solver V F σ) (f : Client V F ρ) (m₀ : ρ)
    (R : Slots (NodeRecord V F) → σ → Slots (NodeRecord V F) → ρ → Prop) : Prop :=
  ∀ (w : Sweep V F σ) (n : NodeId) (t : Slots (NodeRecord V F)) (m : ρ), R w.nodes w.memory t m →
    ∃ t' m', (p.instructed f m₀).sweepNode (w.over t m) n = (p.sweepNode w n).over t' m' ∧
      R (p.sweepNode w n).nodes (p.sweepNode w n).memory t' m'

section

variable (sim : p.Simulates f m₀ R)

include sim

theorem foldl_simulated (l : List NodeId) {w : Sweep V F σ} {t : Slots (NodeRecord V F)} {m : ρ}
    (h : R w.nodes w.memory t m) :
    ∃ t' m', l.foldl (p.instructed f m₀).sweepNode (w.over t m) = (l.foldl p.sweepNode w).over t' m' ∧
      R (l.foldl p.sweepNode w).nodes (l.foldl p.sweepNode w).memory t' m' := by
  induction l generalizing w t m with
  | nil => exact ⟨t, m, rfl, h⟩
  | cons n l ih =>
    obtain ⟨t', m', one, h'⟩ := sim w n t m h
    obtain ⟨t'', m'', all, h''⟩ := ih h'
    exact ⟨t'', m'', by rw [List.foldl_cons, one, all]; rfl, h''⟩

/-- A visit from related states leaves related states, and does nothing else differently. -/
theorem visit_simulated (b : BlockId) (input : Store V) (s : State V F σ) {t : Slots (NodeRecord V F)} {m : ρ}
    (h : R s.nodes s.memory t m) :
    ∃ t' m', (p.instructed f m₀).visit b input (s.over t m) = (p.visit b input s).over t' m' ∧
      R (p.visit b input s).nodes (p.visit b input s).memory t' m' := by
  obtain ⟨t', m', swept, h'⟩ := foldl_simulated sim (p.plan.graph.nodesOf b)
    (w := { memory := s.memory, nodes := s.nodes, outflow := .same input }) h
  have swept : (p.instructed f m₀).sweep b input t m = (p.sweep b input s.nodes s.memory).over t' m' := swept
  rw [nodes_visit, memory_visit]
  refine ⟨t', m', ?_, h'⟩
  have alerted : (p.instructed f m₀).alerted b input (s.over t m) = p.alerted b input s :=
    congrArg (fun w => w.changed.flatMap (p.plan.readers.get ·.index)) swept
  have booked : (p.instructed f m₀).booked b input (s.over t m) = (p.booked b input s).over t' m' := by
    unfold Solver.booked State.over
    dsimp only
    rw [swept]
    rfl
  have exit : ((p.instructed f m₀).sweep b input (s.over t m).nodes (s.over t m).memory).exit =
      (p.sweep b input s.nodes s.memory).exit := congrArg Sweep.exit swept
  have woken := wakes_over p f m₀ (p.alerted b input s) (p.booked b input s) t' m'
  have flooded := enqueues_over p f m₀ (p.plan.graph.targets b)
    ((p.alerted b input s).foldl p.wake (p.booked b input s)) t' m'
  rw [visit_eq, visit_eq, booked, alerted, exit, woken]
  show (if (p.sweep b input s.nodes s.memory).exit ≠ s.exit b then _ else _) = _
  split
  · exact flooded
  · rfl

/-- Runs from related states end in related states, and alike in everything else. -/
theorem run_simulated (s : State V F σ) {t : Slots (NodeRecord V F)} {m : ρ} (h : R s.nodes s.memory t m) :
    ∃ t' m', (p.instructed f m₀).run (s.over t m) = (p.run s).over t' m' ∧
      R (p.run s).nodes (p.run s).memory t' m' := by
  have next := turn_over p f m₀ s t m
  fun_induction run p s generalizing t m with
  | case1 s turn =>
    rw [turn] at next
    exact ⟨t, m, run_done next, h⟩
  | case2 s s' turn ih =>
    obtain ⟨nodes, memory⟩ := turn_keeps (.inl turn)
    rw [turn] at next
    rw [run_idle next]
    exact ih (by rwa [nodes, memory]) (turn_over p f m₀ s' t m)
  | case3 s b input s' turn spent =>
    obtain ⟨nodes, memory⟩ := turn_keeps (.inr ⟨b, input, turn⟩)
    rw [turn] at next
    exact ⟨t, m, run_refused next spent, by rwa [← nodes, ← memory] at h⟩
  | case4 s b input s' turn room ih =>
    obtain ⟨nodes, memory⟩ := turn_keeps (.inr ⟨b, input, turn⟩)
    obtain ⟨t', m', visited, h'⟩ := visit_simulated sim b input s' (t := t) (m := m) (by rwa [nodes, memory])
    rw [turn] at next
    rw [run_visit next room, visited]
    exact ih h' (turn_over p f m₀ _ t' m')

end

end Solver

/-! ## Clients that answer alike -/

/-- Two clients with related memories answer alike, and keep their memories related, whenever they are asked
about a node of the graph at a reachable store. -/
def Client.Matches (g : Flowgraph) (S : σ → ρ → Prop) (f : Client V F σ) (f' : Client V F ρ) : Prop :=
  ∀ m m', S m m' → ∀ node ∈ g.nodes, ∀ sit : Situation V, sit.store.isReachable = true →
    (f' m' node sit).1 = (f m node sit).1 ∧ S (f m node sit).2 (f' m' node sit).2

variable [Domain V] [DecidableEq V]

theorem Client.Matches.simulates {p : Solver V F σ} {S : σ → ρ → Prop} {f : Client V F ρ}
    (h : p.client.Matches p.plan.graph S f) (m₀ : ρ) : p.Simulates f m₀ fun t m t' m' => t' = t ∧ S m m' := by
  rintro w n t m ⟨rfl, related⟩
  unfold Solver.sweepNode Solver.Sweep.over Solver.instructed
  dsimp only
  cases w.outflow.merged with
  | unreachable => exact ⟨_, m, rfl, rfl, related⟩
  | known facts =>
    cases found : p.plan.graph.node? n with
    | none => exact ⟨_, m, rfl, rfl, related⟩
    | some node =>
      obtain ⟨answer, remembered⟩ := h w.memory m related node (Array.mem_of_getElem? found)
        ⟨p.plan.graph, .known facts, fun k => ((w.nodes.get k.index).value).getD Domain.top⟩ rfl
      refine ⟨_, _, ?_, rfl, remembered⟩
      dsimp only
      rw [answer]

/-- Clients that match are told the same in a run, and it ends alike. -/
theorem Flowgraph.analyzeWith_matched {g : Flowgraph} {S : σ → ρ → Prop} {f : Client V F σ} {f' : Client V F ρ}
    (h : f.Matches g S f') (m : σ) (m' : ρ) (related : S m m') (initial : Store V) (limits : Limits) :
    (g.analyzeWith f' m' initial limits).1 = (g.analyzeWith f m initial limits).1 ∧
      S (g.analyzeWith f m initial limits).2 (g.analyzeWith f' m' initial limits).2 := by
  let p := g.problemWith f m initial limits.widenDelay.toNat limits.maxVisits.toNat
  obtain ⟨t', memory, same, written, related⟩ := Solver.run_simulated
    (Client.Matches.simulates (p := p) h m') p.start (t := p.start.nodes) (m := m') ⟨rfl, related⟩
  have last : (g.problemWith f' m' initial limits.widenDelay.toNat limits.maxVisits.toNat).run
      (g.problemWith f' m' initial limits.widenDelay.toNat limits.maxVisits.toNat).start =
        (p.run p.start).over t' memory := same
  unfold analyzeWith
  dsimp only
  rw [last]
  subst written
  exact ⟨rfl, related⟩

/-- What a client says of nodes of other graphs, or of unreachable stores, makes no difference to a run, and
none to what the client remembers of it. -/
theorem Flowgraph.analyzeWith_of_agree {g : Flowgraph} {f f' : Client V F σ}
    (agree : ∀ m, ∀ node ∈ g.nodes, ∀ sit : Situation V, sit.store.isReachable = true → f' m node sit = f m node sit)
    (memory : σ) (initial : Store V) (limits : Limits) :
    g.analyzeWith f' memory initial limits = g.analyzeWith f memory initial limits := by
  have matches_ : f.Matches g Eq f' := by
    rintro m _ rfl node hnode sit live
    rw [agree m node hnode sit live]
    exact ⟨rfl, rfl⟩
  obtain ⟨same, remembered⟩ := analyzeWith_matched matches_ memory memory rfl initial limits
  exact Prod.ext same remembered.symm

end FlowCheck
