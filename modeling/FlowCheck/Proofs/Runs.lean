/-
  FlowCheck.Proofs.Runs — what one turn of the solver does, and how a run ends.

  A turn takes the first pending block off (`Taken`); where its input comes from is one of four
  cases (`Intake`). The turn leaves the block alone or visits it. What a visit changes is said per
  field of the state: the records of the block and of its nodes, the marks of the blocks it wakes
  (`Woken`) and the pending blocks (`pending_visit`).

  A run goes through the states `after k` and ends when nothing is pending, or before the first
  visit beyond the cap (`solve_ends`). An `Invariant` holds of all those states (`Invariant.after`).
-/

import FlowCheck.Proofs.Order
import FlowCheck.Proofs.Readers
import FlowCheck.Proofs.Sweeps
import Mathlib.Logic.Function.Iterate

namespace FlowCheck

namespace Solver

variable {V F σ : Type}

/-! ## Reading a state -/

namespace State

variable (s : State V F σ)

def input (b : BlockId) : Store V := (s.blocks.get b.index).input

def exit (b : BlockId) : BlockExit V := (s.blocks.get b.index).exit

def record (n : NodeId) : NodeRecord V F := s.nodes.get n.index

def visited (b : BlockId) : Bool := (s.progress.get b.index).visited

def stale (b : BlockId) : Bool := (s.progress.get b.index).stale

def joins (b : BlockId) : Nat := (s.progress.get b.index).joins

end State

def Planned (p : Solver V F σ) : Prop := p.plan = .of p.plan.graph

def rankOf (p : Solver V F σ) (b : BlockId) : Nat := p.plan.rank.get b.index

def order (p : Solver V F σ) : List BlockId := p.plan.graph.reversePostorder

variable [Domain V] [DecidableEq V] {p : Solver V F σ} {s s' : State V F σ} {b c : BlockId} {input : Store V}

omit [Domain V] [DecidableEq V] in
theorem Planned.order_rankOf (hp : p.Planned) (h : b ∈ p.order) : p.plan.order[p.rankOf b]? = some b := by
  have := Plan.order_rank h
  rwa [← hp] at this

omit [Domain V] [DecidableEq V] in
theorem Planned.rankOf_inj (hp : p.Planned) (hb : b ∈ p.order) (hc : c ∈ p.order)
    (h : p.rankOf b = p.rankOf c) : b = c := by
  have := hp.order_rankOf hb
  rw [h, hp.order_rankOf hc] at this
  exact (Option.some.inj this).symm

omit [Domain V] [DecidableEq V] in
theorem Planned.isHead_iff (hp : p.Planned) : p.plan.isHead.get b.index = true ↔ b ∈ p.plan.graph.loopHeads := by
  have := Plan.isHead_iff (g := p.plan.graph) (b := b)
  rwa [← hp] at this

omit [Domain V] in
theorem isCurrent_iff :
    s.isCurrent b input = true ↔ s.visited b = true ∧ s.stale b = false ∧ input = s.input b := by
  simp [State.isCurrent, State.visited, State.stale, State.input, and_assoc]

omit [Domain V] in
/-- A block is visited again from the same input only if it is stale. -/
theorem stale_of_again (again : s.visited b = true) (same : input = s.input b)
    (new : s.isCurrent b input = false) : s.stale b = true := by
  by_contra fresh
  rw [isCurrent_iff.mpr ⟨again, by simpa using fresh, same⟩] at new
  cases new

omit [Domain V] [DecidableEq V] in
theorem index_lt (placed : b ∈ p.order) : b.index < p.plan.graph.blocks.size := by
  simpa [Draft.hasBlock] using Flowgraph.hasBlock_of_mem_order placed

/-! ## Taking a block -/

inductive Intake (p : Solver V F σ) (b : BlockId) (s : State V F σ) : Store V → State V F σ → Prop where
  /-- It is not a loop head, or is visited for the first time. -/
  | fresh (first : p.plan.isHead.get b.index = false ∨ s.visited b = false) : Intake p b s (p.incoming s b) s
  /-- Nothing new flows into the loop head. -/
  | kept (head : p.plan.isHead.get b.index = true) (again : s.visited b = true)
      (same : Domain.join (s.input b) (p.incoming s b) = s.input b) : Intake p b s (s.input b) s
  | joined (head : p.plan.isHead.get b.index = true) (again : s.visited b = true)
      (new : Domain.join (s.input b) (p.incoming s b) ≠ s.input b) (early : s.joins b < p.widenDelay) :
      Intake p b s (Domain.join (s.input b) (p.incoming s b))
        { s with progress := s.progress.modify b.index fun q => { q with joins := q.joins + 1 } }
  | widened (head : p.plan.isHead.get b.index = true) (again : s.visited b = true)
      (new : Domain.join (s.input b) (p.incoming s b) ≠ s.input b) (late : p.widenDelay ≤ s.joins b) :
      Intake p b s (Domain.widen (s.input b) (Domain.join (s.input b) (p.incoming s b)))
        { s with stats := { s.stats with widenings := s.stats.widenings + 1 } }

theorem intake_spec (p : Solver V F σ) (b : BlockId) (s : State V F σ) :
    Intake p b s (p.intake b s).1 (p.intake b s).2 := by
  unfold intake
  simp only
  split
  · rename_i h
    obtain ⟨head, again⟩ := Bool.and_eq_true_iff.mp h
    by_cases new : Domain.join (s.input b) (p.incoming s b) = s.input b
    · have same := new
      unfold State.input at same
      rw [if_pos same, same]
      exact .kept head again new
    · have other := new
      unfold State.input at other
      rw [if_neg other]
      split
      · rename_i early; exact .joined head again new early
      · rename_i late; exact .widened head again new (Nat.le_of_not_lt late)
  · rename_i h
    refine .fresh ?_
    have : ¬(p.plan.isHead.get b.index = true ∧ s.visited b = true) := fun both =>
      h (Bool.and_eq_true_iff.mpr both)
    simpa [imp_iff_not_or] using this

/-- The parts of a state that taking a block off leaves alone. -/
structure SameAnswers (s s' : State V F σ) : Prop where
  memory : s'.memory = s.memory
  blocks : s'.blocks = s.blocks
  nodes : s'.nodes = s.nodes
  tracked : s'.progress.size = s.progress.size
  visited : ∀ c, s'.visited c = s.visited c
  stale : ∀ c, s'.stale c = s.stale c
  visits : s'.stats.visits = s.stats.visits
  converged : s'.stats.converged = s.stats.converged

theorem Intake.sameAnswers (h : Intake p b s input s') : SameAnswers s s' ∧ s'.pending = s.pending := by
  cases h with
  | fresh => exact ⟨⟨rfl, rfl, rfl, rfl, fun _ => rfl, fun _ => rfl, rfl, rfl⟩, rfl⟩
  | kept => exact ⟨⟨rfl, rfl, rfl, rfl, fun _ => rfl, fun _ => rfl, rfl, rfl⟩, rfl⟩
  | widened => exact ⟨⟨rfl, rfl, rfl, rfl, fun _ => rfl, fun _ => rfl, rfl, rfl⟩, rfl⟩
  | joined =>
    refine ⟨⟨rfl, rfl, rfl, Slots.size_set _ _ _, fun c => ?_, fun c => ?_, rfl, rfl⟩, rfl⟩
    all_goals
      simp only [State.visited, State.stale, Slots.modify, Slots.get_set]
      split
      · rename_i e; rw [e.1]
      · rfl

theorem Intake.counted (h : Intake p b s input s') :
    s'.stats.transfers = s.stats.transfers ∧ s.stats.widenings ≤ s'.stats.widenings := by
  cases h with
  | widened => exact ⟨rfl, Nat.le_succ _⟩
  | _ => exact ⟨rfl, Nat.le_refl _⟩

/-- `b`, the first pending block of `s`, is taken off, and would be visited with `input`. -/
structure Taken (p : Solver V F σ) (s : State V F σ) (b : BlockId) (input : Store V) (s' : State V F σ) : Prop where
  placed : b ∈ p.order
  first : ∃ rest, s.pending = p.rankOf b :: rest ∧ Intake p b { s with pending := rest } input s'

theorem Taken.sameAnswers (h : Taken p s b input s') : SameAnswers s s' := by
  obtain ⟨rest, -, intake⟩ := h.first
  obtain ⟨memory, blocks, nodes, tracked, visited, stale, visits, converged⟩ := intake.sameAnswers.1
  exact ⟨memory, blocks, nodes, tracked, visited, stale, visits, converged⟩

theorem Taken.pending (h : Taken p s b input s') : s.pending = p.rankOf b :: s'.pending := by
  obtain ⟨rest, first, intake⟩ := h.first
  rw [first, intake.sameAnswers.2]

omit [Domain V] [DecidableEq V] in
theorem SameAnswers.input_eq (h : SameAnswers s s') (c : BlockId) : s'.input c = s.input c := by
  rw [State.input, h.blocks]; rfl

theorem SameAnswers.incoming_eq (h : SameAnswers s s') (c : BlockId) : p.incoming s' c = p.incoming s c := by
  rw [Solver.incoming, Solver.inflow, h.blocks]; rfl

/-- A block that is no loop head is taken off with what flows into it, and nothing else is done. -/
theorem Taken.of_plain (hp : p.Planned) (h : Taken p s b input s') (plain : b ∉ p.plan.graph.loopHeads) :
    input = p.incoming s b ∧ ∃ rest, s.pending = p.rankOf b :: rest ∧ s' = { s with pending := rest } := by
  obtain ⟨rest, first, intake⟩ := h.first
  have atHead := hp.isHead_iff (b := b)
  cases intake with
  | fresh => exact ⟨rfl, rest, first, rfl⟩
  | kept head | joined head | widened head => exact absurd (atHead.mp head) plain

theorem Taken.counted (taken : Taken p s b input s') :
    s'.stats.transfers = s.stats.transfers ∧ s.stats.widenings ≤ s'.stats.widenings := by
  obtain ⟨rest, -, intake⟩ := taken.first
  exact intake.counted

/-- A loop head counts the joins that changed its input, as long as it may. -/
theorem Taken.joins (h : Taken p s b input s') (c : BlockId) :
    s'.joins c = s.joins c ∨ s'.joins c = s.joins c + 1 ∧ s.joins c < p.widenDelay := by
  obtain ⟨rest, -, intake⟩ := h.first
  cases intake with
  | fresh => exact .inl rfl
  | kept => exact .inl rfl
  | widened => exact .inl rfl
  | joined _ _ _ early =>
    simp only [State.joins, Slots.modify, Slots.get_set]
    split
    · rename_i e
      rw [BlockId.index_inj.mp e.1] at early ⊢
      exact .inr ⟨rfl, early⟩
    · exact .inl rfl

/-- What flows into a block depends on the exits of its predecessors alone. -/
theorem incoming_congr {t : State V F σ} (h : ∀ e ∈ p.plan.graph.predecessors b, t.exit e.source = s.exit e.source) :
    p.incoming t b = p.incoming s b := by
  unfold incoming inflow
  congr 2
  exact List.map_congr_left fun e he => congrArg (BlockExit.along · e.kind) (h e he)

theorem incoming_reachable_iff :
    (p.incoming s b).isReachable = true ↔
      (b = p.plan.graph.entry ∧ p.initial.isReachable = true) ∨
        ∃ e ∈ p.plan.graph.edges, e.target = b ∧ ((s.exit e.source).along e.kind).isReachable = true := by
  have heads : (if b = p.plan.graph.entry then [p.initial] else []).any Store.isReachable = true ↔
      b = p.plan.graph.entry ∧ p.initial.isReachable = true := by
    split <;> simp [*]
  rw [incoming, Store.isReachable_joinAll, inflow, List.any_append, Bool.or_eq_true_iff, heads]
  simp only [List.any_map, List.any_eq_true, Function.comp_apply, Flowgraph.mem_predecessors, and_assoc]
  rfl

/-! ## The shape of a state -/

structure Shape (p : Solver V F σ) (s : State V F σ) : Prop where
  blocks : s.blocks.size = p.plan.graph.blocks.size
  nodes : s.nodes.size = p.plan.graph.nodes.size
  tracked : s.progress.size = p.plan.graph.blocks.size
  pending : ∀ r ∈ s.pending, ∃ b ∈ p.order, r = p.rankOf b
  placed : ∀ b, s.visited b = true → b ∈ p.order
  unvisited : ∀ b, s.visited b = false → s.blocks.get b.index = {}
  reached : ∀ b, s.visited b = true → (s.input b).isReachable = true
  unrun : ∀ n, (∀ b, n ∈ p.plan.graph.nodesOf b → s.visited b = false) → s.record n = {}
  converged : s.stats.converged = true

omit [Domain V] [DecidableEq V] in
/-- A node belongs to a visited block, or nothing is recorded of it. -/
theorem Shape.record_cases (shape : Shape p s) (n : NodeId) :
    (∃ b, n ∈ p.plan.graph.nodesOf b ∧ s.visited b = true) ∨ s.record n = {} := by
  by_cases run : ∃ b, n ∈ p.plan.graph.nodesOf b ∧ s.visited b = true
  · exact .inl run
  · refine .inr (shape.unrun n fun b hn => ?_)
    by_contra visited
    exact run ⟨b, hn, by simpa using visited⟩

omit [Domain V] [DecidableEq V] in
theorem Shape.reached_iff (shape : Shape p s) (b : BlockId) : (s.input b).isReachable = true ↔ s.visited b = true := by
  constructor
  · intro reached
    by_contra away
    rw [State.input, shape.unvisited b (by simpa using away)] at reached
    cases reached
  · exact shape.reached b

theorem Taken.shape (h : Taken p s b input s') (shape : Shape p s) : Shape p s' := by
  have same := h.sameAnswers
  have pending := h.pending
  constructor
  · rw [same.blocks, shape.blocks]
  · rw [same.nodes, shape.nodes]
  · rw [same.tracked, shape.tracked]
  · exact fun r hr => shape.pending r (by rw [pending]; exact List.mem_cons_of_mem _ hr)
  · exact fun c hc => shape.placed c (by rwa [← same.visited])
  · exact fun c hc => by rw [same.blocks]; exact shape.unvisited c (by rwa [← same.visited])
  · exact fun c hc => by rw [same.input_eq]; exact shape.reached c (by rwa [← same.visited])
  · intro n hn
    rw [State.record, same.nodes]
    exact shape.unrun n fun c hc => by rw [← same.visited]; exact hn c hc
  · rw [same.converged, shape.converged]

theorem Taken.incoming_eq (taken : Taken p s b input s') (c : BlockId) : p.incoming s' c = p.incoming s c :=
  taken.sameAnswers.incoming_eq c

/-- The input is what flows in, or extends what a visited loop head had. -/
theorem Taken.input_cases (taken : Taken p s b input s') (shape : Shape p s) :
    input = p.incoming s b ∨ s.visited b = true ∧ input.isReachable = true := by
  obtain ⟨rest, -, intake⟩ := taken.first
  have live : s.visited b = true → (s.input b).isReachable = true := shape.reached b
  cases intake with
  | fresh => exact .inl rfl
  | kept _ again => exact .inr ⟨again, live again⟩
  | joined _ again =>
    refine .inr ⟨again, ?_⟩
    rw [Store.isReachable_join]
    exact Bool.or_eq_true_iff.mpr (.inl (live again))
  | widened _ again =>
    refine .inr ⟨again, ?_⟩
    rw [Store.isReachable_widen]
    exact Bool.or_eq_true_iff.mpr (.inl (live again))

/-- A turn finds nothing pending, or takes a block off and either leaves it alone or visits it. -/
theorem turn_cases (hp : p.Planned) (shape : Shape p s) :
    (s.pending = [] ∧ p.turn s = .done) ∨
      ∃ b input s', Taken p s b input s' ∧
        ((p.turn s = .idle s' ∧ (input = .unreachable ∨ s'.isCurrent b input = true)) ∨
          (p.turn s = .visit b input s' ∧ input.isReachable = true ∧ s'.isCurrent b input = false)) := by
  unfold turn
  cases hs : s.pending with
  | nil => exact .inl ⟨rfl, rfl⟩
  | cons r rest =>
    obtain ⟨b, placed, rfl⟩ := shape.pending r (by simp [hs])
    have intake := p.intake_spec b { s with pending := rest }
    refine .inr ⟨b, _, _, ⟨placed, rest, hs, intake⟩, ?_⟩
    simp only [hp.order_rankOf placed]
    by_cases skip : (!(p.intake b { s with pending := rest }).1.isReachable
        || (p.intake b { s with pending := rest }).2.isCurrent b (p.intake b { s with pending := rest }).1) = true
    · refine .inl ⟨if_pos skip, ?_⟩
      rcases Bool.or_eq_true_iff.mp skip with h | h
      · exact .inl (Store.not_isReachable_iff.mp (by simpa using h))
      · exact .inr h
    · refine .inr ⟨if_neg skip, ?_⟩
      simpa using skip

theorem Planned.taken_of_visit (hp : p.Planned) (shape : Shape p s) (turn : p.turn s = .visit b input s') :
    Taken p s b input s' ∧ input.isReachable = true ∧ s'.isCurrent b input = false := by
  rcases turn_cases hp shape with ⟨-, done⟩ | ⟨_, _, _, taken, ⟨idle, -⟩ | ⟨visit, live, new⟩⟩
  · rw [turn] at done; cases done
  · rw [turn] at idle; cases idle
  · rw [turn] at visit
    cases visit
    exact ⟨taken, live, new⟩

/-! ## Waking blocks -/

section

omit [Domain V] [DecidableEq V]

theorem mem_insertRank {r q : Nat} {l : List Nat} : q ∈ insertRank r l ↔ q = r ∨ q ∈ l := by
  induction l with
  | nil => simp [insertRank]
  | cons k l ih =>
    unfold insertRank
    split
    · simp
    · split
      · rename_i e; simp [e]
      · simp only [List.mem_cons, ih, or_left_comm]

theorem pending_foldl_enqueue (l : List BlockId) (s : State V F σ) {r : Nat} :
    r ∈ (l.foldl p.enqueue s).pending ↔ r ∈ s.pending ∨ ∃ c ∈ l, r = p.rankOf c := by
  induction l generalizing s with
  | nil => simp
  | cons b l ih =>
    rw [List.foldl_cons, ih]
    simp only [enqueue, mem_insertRank, List.exists_mem_cons_iff, rankOf, or_assoc, or_left_comm]

theorem enqueue_frame (l : List BlockId) (s : State V F σ) :
    l.foldl p.enqueue s = { s with pending := (l.foldl p.enqueue s).pending } := by
  induction l generalizing s with
  | nil => rfl
  | cons b l ih => rw [List.foldl_cons, ih]; rfl

theorem wake_answers (s : State V F σ) (b : BlockId) :
    (p.wake s b).memory = s.memory ∧ (p.wake s b).blocks = s.blocks ∧ (p.wake s b).nodes = s.nodes ∧
      (p.wake s b).progress.size = s.progress.size := by
  unfold wake enqueue
  dsimp only
  split <;> simp

theorem wakes_answers (l : List BlockId) (s : State V F σ) :
    (l.foldl p.wake s).memory = s.memory ∧ (l.foldl p.wake s).blocks = s.blocks ∧ (l.foldl p.wake s).nodes = s.nodes ∧
      (l.foldl p.wake s).progress.size = s.progress.size := by
  induction l generalizing s with
  | nil => exact ⟨rfl, rfl, rfl, rfl⟩
  | cons b l ih =>
    obtain ⟨memory, blocks, nodes, tracked⟩ := wake_answers (p := p) s b
    rw [List.foldl_cons, ← memory, ← blocks, ← nodes, ← tracked]
    exact ih _

theorem progress_wake {s : State V F σ} {b : BlockId} (tracked : b.index < s.progress.size) (c : BlockId) :
    (p.wake s b).progress.get c.index =
      if c = b ∧ s.visited c = true then { s.progress.get c.index with stale := true }
      else s.progress.get c.index := by
  unfold wake enqueue
  by_cases e : c = b
  · subst e
    by_cases again : (s.progress.get c.index).visited = true
    · simp [again, State.visited, Slots.get_set_same _ _ tracked]
    · simp [again, State.visited]
  · have ne : b.index ≠ c.index := fun h => e (BlockId.index_inj.mp h).symm
    by_cases again : (s.progress.get b.index).visited = true
    · simp [again, e, Slots.get_set_ne _ _ ne]
    · simp [again, e]

theorem progress_wakes {l : List BlockId} {s : State V F σ} (tracked : ∀ b ∈ l, b.index < s.progress.size)
    (c : BlockId) :
    (l.foldl p.wake s).progress.get c.index =
      if c ∈ l ∧ s.visited c = true then { s.progress.get c.index with stale := true }
      else s.progress.get c.index := by
  induction l generalizing s with
  | nil => simp
  | cons b l ih =>
    have one := progress_wake (p := p) (tracked b List.mem_cons_self) c
    have again : (p.wake s b).visited c = s.visited c := by
      rw [State.visited, one]
      split <;> rfl
    rw [List.foldl_cons, ih (fun k hk => by
      rw [(wake_answers s b).2.2.2]; exact tracked k (List.mem_cons_of_mem _ hk)), again, one]
    by_cases e : c = b
    · subst e
      by_cases hv : s.visited c = true <;> by_cases hl : c ∈ l <;> simp [hv, hl]
    · simp [e]

theorem pending_wakes {l : List BlockId} {s : State V F σ} (tracked : ∀ b ∈ l, b.index < s.progress.size)
    {r : Nat} :
    r ∈ (l.foldl p.wake s).pending ↔ r ∈ s.pending ∨ ∃ c ∈ l, s.visited c = true ∧ r = p.rankOf c := by
  induction l generalizing s with
  | nil => simp
  | cons b l ih =>
    have again : ∀ c, (p.wake s b).visited c = s.visited c := fun c => by
      rw [State.visited, progress_wake (tracked b List.mem_cons_self) c]
      split <;> rfl
    have one : r ∈ (p.wake s b).pending ↔ r ∈ s.pending ∨ s.visited b = true ∧ r = p.rankOf b := by
      unfold wake enqueue
      by_cases hv : (s.progress.get b.index).visited = true
      · simp [hv, State.visited, mem_insertRank, rankOf, or_comm]
      · simp [hv, State.visited]
    rw [List.foldl_cons, ih (fun k hk => by
      rw [(wake_answers s b).2.2.2]; exact tracked k (List.mem_cons_of_mem _ hk)), one]
    simp only [again, List.exists_mem_cons_iff, or_assoc]

end

/-! ## What a visit changes -/

/-- `s` with the visit on record, before any block is told. -/
def booked (p : Solver V F σ) (b : BlockId) (input : Store V) (s : State V F σ) : State V F σ :=
  let w := p.sweep b input s.nodes s.memory
  { s with
    memory := w.memory
    blocks := s.blocks.set b.index { input, exit := w.exit }
    nodes := w.nodes
    progress := s.progress.modify b.index fun q => { q with visited := true, stale := false }
    stats := { s.stats with visits := s.stats.visits + 1, transfers := s.stats.transfers + w.transfers } }

def alerted (p : Solver V F σ) (b : BlockId) (input : Store V) (s : State V F σ) : List BlockId :=
  (p.sweep b input s.nodes s.memory).changed.flatMap (p.plan.readers.get ·.index)

def Woken (p : Solver V F σ) (s : State V F σ) (b : BlockId) (input : Store V) (c : BlockId) : Prop :=
  (c = b ∨ s.visited c = true) ∧ ∃ m ∈ (p.sweep b input s.nodes s.memory).changed, m ∈ p.plan.graph.imports c

def Flooded (p : Solver V F σ) (s : State V F σ) (b : BlockId) (input : Store V) (c : BlockId) : Prop :=
  (p.sweep b input s.nodes s.memory).exit ≠ s.exit b ∧ c ∈ p.plan.graph.targets b

theorem visit_eq (b : BlockId) (input : Store V) (s : State V F σ) :
    p.visit b input s =
      if (p.sweep b input s.nodes s.memory).exit ≠ s.exit b then
        (p.plan.graph.targets b).foldl p.enqueue ((p.alerted b input s).foldl p.wake (p.booked b input s))
      else (p.alerted b input s).foldl p.wake (p.booked b input s) := rfl

/-- Only the list of pending blocks depends on whether the exit changed. -/
theorem visit_frame (b : BlockId) (input : Store V) (s : State V F σ) :
    p.visit b input s =
      { (p.alerted b input s).foldl p.wake (p.booked b input s) with
        pending := (p.visit b input s).pending } := by
  rw [visit_eq]
  split
  · exact enqueue_frame _ _
  · rfl

theorem blocks_visit : (p.visit b input s).blocks
    = s.blocks.set b.index { input, exit := (p.sweep b input s.nodes s.memory).exit } := by
  rw [visit_frame, (wakes_answers _ _).2.1]; rfl

theorem nodes_visit : (p.visit b input s).nodes = (p.sweep b input s.nodes s.memory).nodes := by
  rw [visit_frame, (wakes_answers _ _).2.2.1]; rfl

theorem memory_visit : (p.visit b input s).memory = (p.sweep b input s.nodes s.memory).memory := by
  rw [visit_frame, (wakes_answers _ _).1]; rfl

theorem stats_visit : (p.visit b input s).stats = (p.booked b input s).stats := by
  rw [visit_frame, stats_foldl_wake]

/-- A visit transfers every node of the block that it reaches, once. -/
theorem transfers_visit (size : s.nodes.size = p.plan.graph.nodes.size) :
    (p.visit b input s).stats.transfers = s.stats.transfers +
      (p.plan.graph.nodesOf b).countP fun n => ((p.visit b input s).record n).before.isReachable := by
  have swept : (p.sweep b input s.nodes s.memory).transfers = _ := transfers_sweep size
  unfold State.record
  rw [stats_visit, nodes_visit]
  exact congrArg (s.stats.transfers + ·) swept

theorem tracked_visit : (p.visit b input s).progress.size = s.progress.size := by
  rw [visit_frame, (wakes_answers _ _).2.2.2]
  exact Slots.size_set _ _ _

section

variable (hp : p.Planned) (shape : Shape p s) (placed : b ∈ p.order)

theorem mem_alerted (hp : p.Planned) :
    c ∈ p.alerted b input s ↔ ∃ m ∈ (p.sweep b input s.nodes s.memory).changed, m ∈ p.plan.graph.imports c := by
  rw [alerted, List.mem_flatMap, hp]
  exact exists_congr fun m => and_congr_right fun _ => Flowgraph.mem_readerTable

theorem alerted_tracked (hp : p.Planned) (shape : Shape p s) :
    ∀ c ∈ p.alerted b input s, c.index < (p.booked b input s).progress.size := fun c hc => by
  obtain ⟨m, -, imported⟩ := (mem_alerted hp).mp hc
  rw [show (p.booked b input s).progress.size = s.progress.size from Slots.size_set _ _ _, shape.tracked]
  simpa [Draft.hasBlock] using Flowgraph.hasBlock_of_imports imported

include shape placed

theorem input_visit (c : BlockId) : (p.visit b input s).input c = if c = b then input else s.input c := by
  have in_ : b.index < s.blocks.size := by rw [shape.blocks]; exact index_lt placed
  rw [State.input, blocks_visit, Slots.get_set]
  simp only [in_, and_true, BlockId.index_inj, eq_comm (a := b)]
  split <;> rfl

theorem exit_visit (c : BlockId) :
    (p.visit b input s).exit c = if c = b then (p.sweep b input s.nodes s.memory).exit else s.exit c := by
  have in_ : b.index < s.blocks.size := by rw [shape.blocks]; exact index_lt placed
  rw [State.exit, blocks_visit, Slots.get_set]
  simp only [in_, and_true, BlockId.index_inj, eq_comm (a := b)]
  split <;> rfl

omit shape placed in
theorem record_visit {n : NodeId} (h : n ∉ p.plan.graph.nodesOf b) :
    (p.visit b input s).record n = s.record n := by
  rw [State.record, nodes_visit, sweep_frame h]; rfl

theorem progress_booked (c : BlockId) :
    (p.booked b input s).progress.get c.index =
      if c = b then { s.progress.get c.index with visited := true, stale := false }
      else s.progress.get c.index := by
  have in_ : b.index < s.progress.size := by rw [shape.tracked]; exact index_lt placed
  rw [booked, Slots.modify, Slots.get_set]
  simp only [in_, and_true, BlockId.index_inj, eq_comm (a := b)]
  split
  · rename_i e; rw [e]
  · rfl

theorem visited_booked (c : BlockId) :
    (p.booked b input s).visited c = true ↔ c = b ∨ s.visited c = true := by
  rw [State.visited, progress_booked shape placed]
  by_cases e : c = b <;> simp [e, State.visited]

include hp

omit placed in
theorem progress_visit (c : BlockId) :
    (p.visit b input s).progress.get c.index =
      if c ∈ p.alerted b input s ∧ (p.booked b input s).visited c = true then
        { (p.booked b input s).progress.get c.index with stale := true }
      else (p.booked b input s).progress.get c.index := by
  rw [visit_frame, progress_wakes (alerted_tracked hp shape)]

theorem woken_iff (c : BlockId) :
    c ∈ p.alerted b input s ∧ (p.booked b input s).visited c = true ↔ p.Woken s b input c := by
  rw [visited_booked shape placed, mem_alerted hp, Woken, and_comm]

theorem visited_visit (c : BlockId) :
    (p.visit b input s).visited c = true ↔ c = b ∨ s.visited c = true := by
  have booked : (p.booked b input s).visited c = true ↔ c = b ∨ s.visited c = true := visited_booked shape placed c
  rw [← booked, State.visited, progress_visit hp shape]
  split <;> rfl

theorem stale_visit (c : BlockId) :
    (p.visit b input s).stale c = true ↔ p.Woken s b input c ∨ c ≠ b ∧ s.stale c = true := by
  rw [← woken_iff hp shape placed, State.stale, progress_visit hp shape]
  split
  · rename_i h; simp [h]
  · rename_i h
    rw [progress_booked shape placed]
    by_cases e : c = b
    · subst e; simp [h]
    · simp [e, h, State.stale]

theorem joins_visit (c : BlockId) : (p.visit b input s).joins c = s.joins c := by
  have booked : (p.booked b input s).joins c = s.joins c := by
    rw [State.joins, progress_booked shape placed]
    split <;> rfl
  rw [← booked, State.joins, progress_visit hp shape]
  split <;> rfl

theorem pending_visit {r : Nat} :
    r ∈ (p.visit b input s).pending ↔
      r ∈ s.pending ∨ ∃ c, (p.Woken s b input c ∨ p.Flooded s b input c) ∧ r = p.rankOf c := by
  have wakes : r ∈ ((p.alerted b input s).foldl p.wake (p.booked b input s)).pending ↔
      r ∈ s.pending ∨ ∃ c, p.Woken s b input c ∧ r = p.rankOf c := by
    rw [pending_wakes (alerted_tracked hp shape)]
    simp only [← woken_iff hp shape placed, and_assoc]
    rfl
  rw [visit_eq]
  unfold Flooded
  split
  · rename_i changed
    rw [pending_foldl_enqueue, wakes]
    simp only [ne_eq, changed, not_false_eq_true, true_and, or_and_right, exists_or, or_assoc]
  · rename_i same
    rw [wakes]
    simp only [same, false_and, or_false]

theorem visit_shape (live : input.isReachable = true) : Shape p (p.visit b input s) where
  blocks := by rw [blocks_visit, Slots.size_set, shape.blocks]
  nodes := by rw [nodes_visit, size_sweep, shape.nodes]
  tracked := by rw [tracked_visit, shape.tracked]
  pending r hr := by
    rcases (pending_visit hp shape placed).mp hr with hr | ⟨c, ⟨again, -⟩ | ⟨-, target⟩, rfl⟩
    · exact shape.pending r hr
    · refine ⟨c, ?_, rfl⟩
      rcases again with rfl | again
      · exact placed
      · exact shape.placed c again
    · obtain ⟨e, he, source, rfl⟩ := Flowgraph.mem_targets.mp target
      exact ⟨e.target, Flowgraph.reversePostorder_closed he (source ▸ placed), rfl⟩
  placed c hc := by
    rcases (visited_visit hp shape placed c).mp hc with rfl | hc
    · exact placed
    · exact shape.placed c hc
  unvisited c hc := by
    have old : c ≠ b ∧ s.visited c ≠ true := by
      simpa [visited_visit hp shape placed] using (Bool.eq_false_iff.mp hc)
    rw [blocks_visit, Slots.get_set_ne _ _ fun h => old.1 (BlockId.index_inj.mp h).symm]
    exact shape.unvisited c (by simpa using old.2)
  reached c hc := by
    rw [input_visit shape placed]
    split
    · exact live
    · rename_i e
      exact shape.reached c (((visited_visit hp shape placed c).mp hc).resolve_left e)
  unrun n hn := by
    have old : ∀ c, n ∈ p.plan.graph.nodesOf c → c ≠ b ∧ s.visited c ≠ true := fun c hc => by
      simpa [visited_visit hp shape placed] using (Bool.eq_false_iff.mp (hn c hc))
    rw [record_visit fun hb => (old b hb).1 rfl]
    exact shape.unrun n fun c hc => by simpa using (old c hc).2
  converged := by rw [stats_visit]; exact shape.converged

end

theorem incoming_visit (shape : Shape p s) (placed : b ∈ p.order) (still : ¬p.Flooded s b input c) :
    p.incoming (p.visit b input s) c = p.incoming s c := by
  refine incoming_congr fun e he => ?_
  rw [exit_visit shape placed]
  split
  · rename_i source
    obtain ⟨edge, target⟩ := Flowgraph.mem_predecessors.mp he
    have same : ¬(p.sweep b input s.nodes s.memory).exit ≠ s.exit b := fun changed =>
      still ⟨changed, Flowgraph.mem_targets.mpr ⟨e, edge, source, target⟩⟩
    rw [not_not.mp same, source]
  · rfl

/-! ## Runs -/

def step (p : Solver V F σ) (s : State V F σ) : State V F σ :=
  match p.turn s with
  | .done => s
  | .idle s' => s'
  | .visit b input s' => p.visit b input s'

/-- The state after `k` turns, whatever the cap. -/
def after (p : Solver V F σ) (k : Nat) : State V F σ := p.step^[k] p.start

theorem after_succ (p : Solver V F σ) (k : Nat) : p.after (k + 1) = p.step (p.after k) :=
  Function.iterate_succ_apply' ..

theorem turn_done_iff : p.turn s = .done ↔ s.pending = [] := by
  unfold turn
  cases s.pending with
  | nil => simp
  | cons r rest =>
    dsimp only
    cases p.plan.order[r]? with
    | none => simp
    | some b =>
      dsimp only
      split <;> simp

theorem step_cases (hp : p.Planned) (shape : Shape p s) :
    (s.pending = [] ∧ p.step s = s) ∨
      ∃ b input s', Taken p s b input s' ∧
        ((p.step s = s' ∧ (input = .unreachable ∨ s'.isCurrent b input = true)) ∨
          (p.step s = p.visit b input s' ∧ input.isReachable = true ∧ s'.isCurrent b input = false)) := by
  unfold step
  rcases turn_cases hp shape with ⟨none_, turn⟩ | ⟨b, input, s', taken, ⟨turn, why⟩ | ⟨turn, why⟩⟩
  · exact .inl ⟨none_, by rw [turn]⟩
  · exact .inr ⟨b, input, s', taken, .inl ⟨by rw [turn], why⟩⟩
  · exact .inr ⟨b, input, s', taken, .inr ⟨by rw [turn], why⟩⟩

omit [Domain V] [DecidableEq V] in
theorem start_shape (p : Solver V F σ) : Shape p p.start where
  blocks := Array.size_replicate
  nodes := Array.size_replicate
  tracked := Array.size_replicate
  pending r hr := ⟨_, Flowgraph.entry_mem_reversePostorder _, List.mem_singleton.mp hr⟩
  placed b hb := by simp [State.visited, start] at hb
  unvisited b _ := Slots.get_filled _ _ _
  reached b hb := by simp [State.visited, start] at hb
  unrun n _ := Slots.get_filled _ _ _
  converged := rfl

theorem step_shape (hp : p.Planned) (shape : Shape p s) : Shape p (p.step s) := by
  rcases step_cases hp shape with ⟨-, e⟩ | ⟨b, input, s', taken, ⟨e, -⟩ | ⟨e, live, -⟩⟩
  · rwa [e]
  · rw [e]; exact taken.shape shape
  · rw [e]; exact visit_shape hp (taken.shape shape) taken.placed live

theorem after_shape (hp : p.Planned) (k : Nat) : Shape p (p.after k) := by
  induction k with
  | zero => exact p.start_shape
  | succ k ih =>
    rw [after_succ]
    exact step_shape hp ih

/-- A property of the first state that both kinds of turn keep. -/
structure Invariant (p : Solver V F σ) (I : State V F σ → Prop) : Prop where
  start : I p.start
  idle : ∀ {s s' b input}, Shape p s → I s → Taken p s b input s' →
    input = .unreachable ∨ s'.isCurrent b input = true → I s'
  visit : ∀ {s s' b input}, Shape p s' → I s → Taken p s b input s' →
    input.isReachable = true → s'.isCurrent b input = false → I (p.visit b input s')

theorem Invariant.after {I : State V F σ → Prop} (h : Invariant p I) (hp : p.Planned) (k : Nat) : I (p.after k) := by
  induction k with
  | zero => exact h.start
  | succ k ih =>
    have shape := after_shape hp k
    rw [after_succ]
    rcases step_cases hp shape with ⟨-, e⟩ | ⟨b, input, s', taken, ⟨e, why⟩ | ⟨e, live, new⟩⟩
    · exact e.symm ▸ ih
    · exact e.symm ▸ h.idle shape ih taken why
    · exact e.symm ▸ h.visit (taken.shape shape) ih taken live new

/-! ## The stores of a state -/

structure State.All (P : Store V → Prop) (s : State V F σ) : Prop where
  input : ∀ b, P (s.input b)
  exit : ∀ b, (s.exit b).All P
  record : ∀ n, (s.record n).All P

omit [Domain V] [DecidableEq V] in
theorem SameAnswers.all {P : Store V → Prop} (same : SameAnswers s s') (h : s.All P) : s'.All P where
  input b := by rw [same.input_eq]; exact h.input b
  exit b := by rw [State.exit, same.blocks]; exact h.exit b
  record n := by rw [State.record, same.nodes]; exact h.record n

section

variable {P : Store V → Prop} (hP : Store.Stable P) (hi : P p.initial)

include hP hi

theorem State.All.incoming (h : s.All P) (b : BlockId) : P (p.incoming s b) := by
  refine hP.joinAll fun st hst => ?_
  rcases List.mem_append.mp hst with hst | hst
  · split at hst
    · rw [List.mem_singleton.mp hst]; exact hi
    · cases hst
  · obtain ⟨e, -, rfl⟩ := List.mem_map.mp hst
    exact h.exit e.source e.kind

theorem Taken.input_all (taken : Taken p s b input s') (h : s.All P) : P input := by
  obtain ⟨rest, -, intake⟩ := taken.first
  have previous := h.input b
  have incoming := h.incoming hP hi b
  cases intake with
  | fresh => exact incoming
  | kept => exact previous
  | joined => exact hP.join previous incoming
  | widened => exact hP.widen previous (hP.join previous incoming)

omit hi in
theorem all_start : State.All P p.start := by
  refine ⟨fun b => ?_, fun b k => ?_, fun n => ?_⟩
  · simpa [State.input, start] using hP.unreachable
  · simpa [State.exit, start] using hP.unreachable
  · simpa [State.record, start] using ⟨hP.unreachable, hP.unreachable⟩

def State.Clean (fine : F → Prop) (s : State V F σ) : Prop := ∀ n, ∀ m ∈ (s.record n).facts, fine m

theorem all_visit {fine : F → Prop} (hτ : p.client.KeepsWhile fine P p.plan.graph) (shape : Shape p s')
    (h : s.All P) (taken : Taken p s b input s') (clean : (p.visit b input s').Clean fine) :
    (p.visit b input s').All P := by
  have h' := taken.sameAnswers.all h
  have live := taken.input_all hP hi h
  unfold State.Clean State.record at clean
  rw [nodes_visit] at clean
  obtain ⟨records, exit⟩ := all_sweep (b := b) hP hτ shape.nodes live h'.record clean
  refine ⟨fun c => ?_, fun c => ?_, fun n => ?_⟩
  · rw [input_visit shape taken.placed]
    split
    · exact live
    · exact h'.input c
  · rw [exit_visit shape taken.placed]
    split
    · exact exit
    · exact h'.exit c
  · rw [State.record, nodes_visit]
    exact records n

/-- What holds of the initial store and is kept by nodes, joins and widenings holds of every store
of a run. -/
theorem all_invariant (hτ : p.client.Keeps P p.plan.graph) : Invariant p (State.All P) where
  start := all_start hP
  idle _ h taken _ := taken.sameAnswers.all h
  visit shape h taken _ _ := all_visit hP hi (fun m => (hτ m).keepsWhile) shape h taken fun _ _ _ => trivial

/-- The same of nodes that keep it unless they report something that is not fine, as long as nothing
of that kind is ever reported. -/
theorem all_after_of_clean {fine : F → Prop} (hp : p.Planned) (hτ : p.client.KeepsWhile fine P p.plan.graph) {k : Nat}
    (clean : ∀ j ≤ k, (p.after j).Clean fine) : (p.after k).All P := by
  induction k with
  | zero => exact all_start hP
  | succ k ih =>
    have h := ih fun j hj => clean j (Nat.le_succ_of_le hj)
    have now := clean (k + 1) (Nat.le_refl _)
    rw [after_succ] at now ⊢
    rcases step_cases hp (after_shape hp k) with ⟨-, e⟩ | ⟨b, input, s', taken, ⟨e, -⟩ | ⟨e, -, -⟩⟩
    · rwa [e]
    · rw [e]
      exact taken.sameAnswers.all h
    · rw [e] at now ⊢
      exact all_visit hP hi hτ (taken.shape (after_shape hp k)) h taken now

end

/-! ## The end of a run -/

/-- A run from `s` ends in a state with nothing pending, or before a visit beyond the cap. -/
theorem run_cases (p : Solver V F σ) (s : State V F σ) :
    (∃ k, (p.step^[k] s).pending = [] ∧ p.run s = p.step^[k] s) ∨
      ∃ k b input s', p.turn (p.step^[k] s) = .visit b input s' ∧ p.maxVisits ≤ s'.stats.visits ∧
        p.run s = { s' with stats := { s'.stats with converged := false } } := by
  fun_induction run p s with
  | case1 s turn => exact .inl ⟨0, turn_done_iff.mp turn, rfl⟩
  | case2 s s' turn ih =>
    have next : p.step s = s' := by rw [step, turn]
    rw [← next] at ih ⊢
    rcases ih with ⟨k, h⟩ | ⟨k, h⟩
    · exact .inl ⟨k + 1, h⟩
    · exact .inr ⟨k + 1, h⟩
  | case3 s b input s' turn spent => exact .inr ⟨0, b, input, s', turn, spent, rfl⟩
  | case4 s b input s' turn _ ih =>
    have next : p.step s = p.visit b input s' := by rw [step, turn]
    rw [← next] at ih ⊢
    rcases ih with ⟨k, h⟩ | ⟨k, h⟩
    · exact .inl ⟨k + 1, h⟩
    · exact .inr ⟨k + 1, h⟩

def State.givenUp (s : State V F σ) : Result V F :=
  { blocks := s.blocks, nodes := s.nodes, stats := { s.stats with converged := false } }

theorem visits_run (p : Solver V F σ) (s : State V F σ) (room : s.stats.visits ≤ p.maxVisits) :
    (p.run s).stats.visits ≤ p.maxVisits := by
  fun_induction run p s with
  | case1 => exact room
  | case2 s s' turn ih => exact ih ((p.turn_idle turn).1 ▸ room)
  | case3 s b input s' turn => exact p.turn_visit turn ▸ room
  | case4 s b input s' _ more ih => exact ih (by rw [p.visit_visits]; omega)

/-- A run ends with nothing pending and no more visits than the cap allows, or with exactly as many and
a visit refused. -/
theorem run_ends (p : Solver V F σ) :
    (∃ k, (p.after k).pending = [] ∧ (p.after k).stats.visits ≤ p.maxVisits ∧ p.run p.start = p.after k) ∨
      ∃ k b input t, p.turn (p.after k) = .visit b input t ∧ (p.after k).stats.visits = p.maxVisits ∧
        p.run p.start = { t with stats := { t.stats with converged := false } } := by
  have room := p.visits_run p.start (Nat.zero_le _)
  rcases p.run_cases p.start with ⟨k, quiet, e⟩ | ⟨k, b, input, t, turn, spent, e⟩
  · rw [e] at room
    exact .inl ⟨k, quiet, room, e⟩
  · rw [e] at room
    have same : t.stats.visits = (p.after k).stats.visits := p.turn_visit turn
    have room : t.stats.visits ≤ p.maxVisits := room
    exact .inr ⟨k, b, input, t, turn, by omega, e⟩

theorem solve_ends (p : Solver V F σ) :
    (∃ k, (p.after k).pending = [] ∧ (p.after k).stats.visits ≤ p.maxVisits ∧ p.solve = (p.after k).result) ∨
      ∃ k b input t, p.turn (p.after k) = .visit b input t ∧ (p.after k).stats.visits = p.maxVisits ∧
        p.solve = t.givenUp := by
  rcases p.run_ends with ⟨k, quiet, room, e⟩ | ⟨k, b, input, t, turn, spent, e⟩
  · exact .inl ⟨k, quiet, room, by rw [solve, e]⟩
  · exact .inr ⟨k, b, input, t, turn, spent, by rw [solve, e]; rfl⟩

theorem solve_cases (p : Solver V F σ) :
    (∃ k, (p.after k).pending = [] ∧ p.solve = (p.after k).result) ∨
      ∃ k b input s', p.turn (p.after k) = .visit b input s' ∧ p.maxVisits ≤ s'.stats.visits ∧
        p.solve.stats.converged = false := by
  rcases p.solve_ends with ⟨k, quiet, -, result⟩ | ⟨k, b, input, t, turn, spent, result⟩
  · exact .inl ⟨k, quiet, result⟩
  · exact .inr ⟨k, b, input, t, turn, Nat.le_of_eq ((p.turn_visit turn).trans spent).symm, by rw [result]; rfl⟩

/-- The answers of a run, be it stopped or not, are those of one of its states, one with nothing pending
or with as many visits as the cap allows. -/
theorem solve_answers (hp : p.Planned) :
    ∃ k, p.solve.blocks = (p.after k).blocks ∧ p.solve.nodes = (p.after k).nodes ∧
      (p.after k).stats.visits ≤ p.maxVisits ∧
      ((p.after k).pending = [] ∨ (p.after k).stats.visits = p.maxVisits) := by
  rcases p.solve_ends with ⟨k, quiet, room, result⟩ | ⟨k, b, input, t, turn, spent, result⟩
  · exact ⟨k, by rw [result]; rfl, by rw [result]; rfl, room, .inl quiet⟩
  · have same := (hp.taken_of_visit (after_shape hp k) turn).1.sameAnswers
    refine ⟨k, ?_, ?_, Nat.le_of_eq spent, .inr spent⟩
    · rw [result]
      exact same.blocks
    · rw [result]
      exact same.nodes

/-- A converged run ends with nothing pending. -/
theorem quiet_of_converged (h : p.solve.stats.converged = true) :
    ∃ k, (p.after k).pending = [] ∧ p.solve = (p.after k).result := by
  rcases p.solve_cases with ended | ⟨k, b, input, s', -, -, gaveUp⟩
  · exact ended
  · rw [gaveUp] at h; cases h

end Solver

/-- What an analysis that remembers nothing returns is what a run on its problem finds. -/
theorem Flowgraph.analyze_eq {V F : Type} [Domain V] [DecidableEq V] (g : Flowgraph) (τ : Transfer V F)
    (initial : Store V) (limits : Limits) :
    g.analyze τ initial limits = (g.problem τ initial limits.widenDelay.toNat limits.maxVisits.toNat).solve := rfl

end FlowCheck
