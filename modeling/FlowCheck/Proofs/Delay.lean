/-
  FlowCheck.Proofs.Delay — where widening is joining, the delay before it does not matter.

  The delay decides how a visited loop head takes in what is new to it: by a join, as long as it has
  joins left, and then by widening its old input with that join. If values are widened by joining
  them, so are stores, and joining the old input to the join once more adds nothing to a canonical
  store (`widen_joined`). Then the input of a block is the same under every delay
  (`Intake.input_eq`), and two runs that differ in the delay go from state to state in step
  (`inStep_after`): they differ in the joins and widenings they count, and in nothing else.

  Both checks widen by joining and keep stores canonical (`delay_immaterial`).
-/

import FlowCheck.Proofs.Convergence
import Mathlib.Data.List.Permutation

namespace FlowCheck

def WidensByJoining (V : Type) [Domain V] : Prop := ∀ a b : V, Domain.widen a b = Domain.join a b

theorem Purity.widensByJoining : WidensByJoining Purity.Properties := fun _ _ => rfl

theorem Constants.widensByJoining : WidensByJoining Constants.TaggedValue := fun _ _ => rfl

structure Result.SameButWidenings {V F : Type} (r r' : Result V F) : Prop where
  blocks : r'.blocks = r.blocks
  nodes : r'.nodes = r.nodes
  visits : r'.stats.visits = r.stats.visits
  transfers : r'.stats.transfers = r.stats.transfers
  converged : r'.stats.converged = r.stats.converged

section

variable {V : Type} [Domain V] [DecidableEq V]

theorem Store.widen_eq_join (joins : WidensByJoining V) (a b : Store V) : Domain.widen a b = Domain.join a b := by
  have same : (Domain.widen : V → V → V) = Domain.join := funext₂ joins
  show combine Domain.widen a b = combine Domain.join a b
  rw [same]

/-- Widening a store with what it was joined to gives the join. -/
theorem Store.widen_joined [LawfulDomain V] (joins : WidensByJoining V) {a b : Store V} (ha : a.Canonical)
    (hb : b.Canonical) : Domain.widen a (Domain.join a b) = Domain.join a b := by
  rw [widen_eq_join joins, join_assoc ha ha hb, join_self ha]

end

namespace Solver

variable {V F : Type}

def delayed (p : Solver V F) (widenDelay : Nat) : Solver V F := { p with widenDelay }

/-- `t` is `s` with other counts of joins and widenings. -/
structure InStep (s t : State V F) : Prop extends SameAnswers s t where
  pending : t.pending = s.pending
  transfers : t.stats.transfers = s.stats.transfers

inductive Turn.InStep : Turn V F → Turn V F → Prop where
  | done : InStep .done .done
  | idle {s t : State V F} (h : Solver.InStep s t) : InStep (.idle s) (.idle t)
  | visit {s t : State V F} (b : BlockId) (input : Store V) (h : Solver.InStep s t) :
      InStep (.visit b input s) (.visit b input t)

variable [Domain V] [DecidableEq V] {p : Solver V F} {s s' t t' : State V F} {b : BlockId} {input input' : Store V}
  {widenDelay : Nat}

/-! ## Visits keep states in step -/

omit [Domain V] [DecidableEq V] in
theorem InStep.repending (h : InStep s t) (pending : List Nat) :
    InStep { s with pending } { t with pending } where
  memory := h.memory
  blocks := h.blocks
  nodes := h.nodes
  tracked := h.tracked
  visited := h.visited
  stale := h.stale
  visits := h.visits
  converged := h.converged
  pending := rfl
  transfers := h.transfers

omit [Domain V] [DecidableEq V] in
/-- The same change to what both remember of a block, if it does not look at the joins. -/
theorem InStep.remark (h : InStep s t) (b : BlockId) {f : Progress → Progress}
    (visited : ∀ q q' : Progress, q'.visited = q.visited → (f q').visited = (f q).visited)
    (stale : ∀ q q' : Progress, q'.stale = q.stale → (f q').stale = (f q).stale) :
    InStep { s with progress := s.progress.modify b.index f } { t with progress := t.progress.modify b.index f } where
  memory := h.memory
  blocks := h.blocks
  nodes := h.nodes
  tracked := by simp only [Slots.modify, Slots.size_set, h.tracked]
  visited c := by
    simp only [State.visited, Slots.modify, Slots.get_set, h.tracked]
    split
    · exact visited _ _ (h.visited b)
    · exact h.visited c
  stale c := by
    simp only [State.stale, Slots.modify, Slots.get_set, h.tracked]
    split
    · exact stale _ _ (h.stale b)
    · exact h.stale c
  visits := h.visits
  converged := h.converged
  pending := h.pending
  transfers := h.transfers

omit [Domain V] [DecidableEq V] in
theorem InStep.enqueue (h : InStep s t) (b : BlockId) : InStep (p.enqueue s b) (p.enqueue t b) := by
  unfold Solver.enqueue
  rw [h.pending]
  exact h.repending _

omit [Domain V] [DecidableEq V] in
theorem InStep.wake (h : InStep s t) (b : BlockId) : InStep (p.wake s b) (p.wake t b) := by
  have wake_eq : ∀ u : State V F, p.wake u b =
      if u.visited b then
        p.enqueue { u with progress := u.progress.modify b.index fun q => { q with stale := true } } b
      else u := fun _ => rfl
  rw [wake_eq, wake_eq, h.visited b]
  split
  · exact (h.remark b (f := fun q => { q with stale := true }) (fun _ _ e => e) fun _ _ _ => rfl).enqueue b
  · exact h

omit [Domain V] [DecidableEq V] in
theorem InStep.foldl {f : State V F → BlockId → State V F} (one : ∀ {s t}, InStep s t → ∀ b, InStep (f s b) (f t b))
    (h : InStep s t) (l : List BlockId) : InStep (l.foldl f s) (l.foldl f t) := by
  induction l generalizing s t with
  | nil => exact h
  | cons b l ih => exact ih (one h b)

theorem InStep.booked (h : InStep s t) (b : BlockId) (input : Store V) :
    InStep (p.booked b input s) (p.booked b input t) := by
  have marked := h.remark b (f := fun q => { q with visited := true, stale := false }) (fun _ _ _ => rfl)
    fun _ _ _ => rfl
  unfold Solver.booked
  rw [h.memory, h.blocks, h.nodes, h.visits, h.transfers]
  exact ⟨⟨rfl, rfl, rfl, marked.tracked, marked.visited, marked.stale, rfl, h.converged⟩, h.pending, rfl⟩

theorem InStep.visit (h : InStep s t) (b : BlockId) (input : Store V) :
    InStep (p.visit b input s) (p.visit b input t) := by
  have alerted : p.alerted b input t = p.alerted b input s := by unfold Solver.alerted; rw [h.nodes, h.memory]
  have exit : t.exit b = s.exit b := by rw [State.exit, h.blocks]; rfl
  have woken := (h.booked (p := p) b input).foldl (InStep.wake (p := p)) (p.alerted b input s)
  rw [visit_eq, visit_eq, alerted, h.nodes, h.memory, exit]
  split
  · exact woken.foldl (InStep.enqueue (p := p)) _
  · exact woken

/-! ## Turns of runs in step -/

/-- Whatever the two do to take a block off, they stay in step. -/
theorem InStep.intake (h : InStep s t) (first : Intake p b s input s')
    (second : Intake (p.delayed widenDelay) b t input' t') : InStep s' t' := by
  obtain ⟨same, pending⟩ := first.sameAnswers
  obtain ⟨same', pending'⟩ := second.sameAnswers
  constructor
  · constructor
    · rw [same'.memory, h.memory, same.memory]
    · rw [same'.blocks, h.blocks, same.blocks]
    · rw [same'.nodes, h.nodes, same.nodes]
    · rw [same'.tracked, h.tracked, same.tracked]
    · exact fun c => by rw [same'.visited, h.visited, same.visited]
    · exact fun c => by rw [same'.stale, h.stale, same.stale]
    · rw [same'.visits, h.visits, same.visits]
    · rw [same'.converged, h.converged, same.converged]
  · rw [pending', h.pending, pending]
  · rw [second.counted.1, h.transfers, first.counted.1]

omit [Domain V] in
theorem InStep.isCurrent_eq (h : InStep s t) (b : BlockId) (input : Store V) :
    t.isCurrent b input = s.isCurrent b input := by
  rw [Bool.eq_iff_iff, isCurrent_iff, isCurrent_iff, h.visited, h.stale, h.toSameAnswers.input_eq]

section

variable [LawfulDomain V] (joins : WidensByJoining V) (hi : p.initial.Canonical)

include joins hi

/-- Where widening is joining, a visited loop head takes in the join of what it had and what flows in. -/
theorem Intake.input_eq (canonical : s.All Store.Canonical) (h : Intake p b s input s') :
    input = if p.plan.isHead.get b.index && s.visited b then Domain.join (s.input b) (p.incoming s b)
      else p.incoming s b := by
  cases h with
  | fresh first =>
    rcases first with plain | new
    · rw [plain]; rfl
    · rw [new, Bool.and_false]; rfl
  | kept head again same => rw [head, again, same]; rfl
  | joined head again => rw [head, again]; rfl
  | widened head again =>
    rw [head, again]
    exact Store.widen_joined joins (canonical.input b) (canonical.incoming Store.stable_canonical hi b)

theorem InStep.turn (widenDelay : Nat) (canonical : s.All Store.Canonical) (h : InStep s t) :
    (p.turn s).InStep ((p.delayed widenDelay).turn t) := by
  unfold Solver.turn
  rw [h.pending]
  cases s.pending with
  | nil => exact .done
  | cons r rest =>
    have h := h.repending rest
    have canonical : State.All Store.Canonical { s with pending := rest } :=
      ⟨canonical.input, canonical.exit, canonical.record⟩
    dsimp only
    rw [show (p.delayed widenDelay).plan = p.plan from rfl]
    cases p.plan.order[r]? with
    | none => exact .idle h
    | some b =>
      have first := p.intake_spec b { s with pending := rest }
      have second := (p.delayed widenDelay).intake_spec b { t with pending := rest }
      have states := h.intake first second
      have inputs := Intake.input_eq (p := p.delayed widenDelay) joins hi (h.toSameAnswers.all canonical) second
      rw [show (p.delayed widenDelay).plan = p.plan from rfl, h.visited, h.toSameAnswers.input_eq,
        show (p.delayed widenDelay).incoming _ b = p.incoming _ b from rfl, h.toSameAnswers.incoming_eq,
        ← first.input_eq joins hi canonical] at inputs
      dsimp only
      rw [inputs, states.isCurrent_eq]
      split
      · exact .idle states
      · exact .visit _ _ states

variable (hp : p.Planned) (hτ : p.transfer.Keeps Store.Canonical p.plan.graph)

include hp hτ

/-- After the same number of turns, runs that differ in the delay alone are in step. -/
theorem inStep_after (widenDelay k : Nat) : InStep (p.after k) ((p.delayed widenDelay).after k) := by
  induction k with
  | zero => exact ⟨⟨rfl, rfl, rfl, rfl, fun _ => rfl, fun _ => rfl, rfl, rfl⟩, rfl, rfl⟩
  | succ k ih =>
    have canonical := (all_invariant Store.stable_canonical hi fun _ => hτ).after hp k
    have turns := ih.turn joins hi widenDelay canonical
    rw [after_succ, after_succ, step, step]
    revert turns
    generalize p.turn (p.after k) = first
    generalize (p.delayed widenDelay).turn ((p.delayed widenDelay).after k) = second
    intro turns
    cases turns with
    | done => exact ih
    | idle h => exact h
    | visit b input h => exact h.visit b input

theorem solve_delayed (widenDelay : Nat) : p.solve.SameButWidenings (p.delayed widenDelay).solve := by
  have states := inStep_after joins hi hp hτ widenDelay
  rcases p.solve_ends with ⟨k, quiet, room, result⟩ | ⟨k, b, input, s, turn, spent, result⟩
  · have h := states k
    have result' : (p.delayed widenDelay).solve = ((p.delayed widenDelay).after k).result :=
      solve_of_quiet (h.pending.trans quiet) (h.visits.trans_le room)
    rw [result, result']
    exact ⟨h.blocks, h.nodes, h.visits, h.transfers, h.converged⟩
  · have canonical := (all_invariant Store.stable_canonical hi fun _ => hτ).after hp k
    have turns := (states k).turn joins hi widenDelay canonical
    have spent' := (states k).visits.trans spent
    rw [turn] at turns
    revert turns
    generalize turn' : (p.delayed widenDelay).turn ((p.delayed widenDelay).after k) = second
    intro turns
    cases turns with
    | visit b input h =>
      rw [result, solve_of_spent turn' spent']
      exact ⟨h.blocks, h.nodes, h.visits, h.transfers, rfl⟩

end

end Solver

/-! ## The two checks -/

/-- Under whatever delay, the usage analysis and the effect analysis of a graph from a canonical store
have the same result, but for the widenings counted. -/
theorem Flowgraph.delay_immaterial (g : Flowgraph) (maxVisits delay delay' : UInt64) :
    (∀ (s : Constants.Scope) (initial : Store Constants.TaggedValue), initial.Canonical →
        (g.analyze s.transfer initial ⟨delay, maxVisits⟩).SameButWidenings
          (g.analyze s.transfer initial ⟨delay', maxVisits⟩)) ∧
      ∀ (c : Purity.Callees) (initial : Store Purity.Properties), initial.Canonical →
        (g.analyze c.transfer initial ⟨delay, maxVisits⟩).SameButWidenings
          (g.analyze c.transfer initial ⟨delay', maxVisits⟩) := by
  constructor
  · intro s initial canonical
    let p := g.problem s.transfer initial delay.toNat maxVisits.toNat
    exact Solver.solve_delayed (p := p) Constants.widensByJoining canonical rfl (s.transfer_keepsCanonical g)
      delay'.toNat
  · intro c initial canonical
    let p := g.problem c.transfer initial delay.toNat maxVisits.toNat
    exact Solver.solve_delayed (p := p) Purity.widensByJoining canonical rfl (c.transfer_keepsCanonical g)
      delay'.toNat

/-- Assigns a literal to a parameter and raises it, over and over. -/
def retriedAssignment : Flowgraph where
  blocks := #[{ id := ⟨0⟩, role := .entry, nodes := [⟨0⟩] }, { id := ⟨1⟩, nodes := [⟨1⟩, ⟨2⟩] }]
  nodes := #[{ id := ⟨0⟩, operation := .literal (.int 1) }, { id := ⟨1⟩, operation := .assign (.local "x") ⟨0⟩ },
    { id := ⟨2⟩, operation := .raise ⟨0⟩ }]
  edges := [⟨⟨0⟩, ⟨1⟩, .normal⟩, ⟨⟨1⟩, ⟨1⟩, .exceptional⟩]
  checked := by decide

def retrier : Routine :=
  { name := "f", parameters := [{ name := "x", type := .int, group := some "" }], body := some retriedAssignment }

/-- The second visit to the loop head finds the parameter changed: it widens without a delay, and joins
with a delay of one. All else is the same. -/
theorem delay_immaterial_retriedAssignment :
    let run (delay : UInt64) := retriedAssignment.analyze (Constants.Scope.transfer ⟨.empty, "D"⟩)
      (Constants.Routine.entryStore retrier) ⟨delay, 10000⟩
    (Constants.Routine.entryStore retrier).Canonical ∧
      (run 0).stats = { visits := 3, transfers := 5, widenings := 1, converged := true } ∧
      (run 1).stats.widenings = 0 ∧ (run 0).SameButWidenings (run 1) ∧
      (retriedAssignment.analyze (Purity.Callees.transfer ⟨.empty, .impure⟩) .blank ⟨0, 10000⟩).SameButWidenings
        (retriedAssignment.analyze (Purity.Callees.transfer ⟨.empty, .impure⟩) .blank ⟨1, 10000⟩) := by
  intro run
  have canonical := (entryStore_spec retrier).1
  obtain ⟨usage, effects⟩ := Flowgraph.delay_immaterial retriedAssignment 10000 0 1
  exact ⟨canonical, by cbv, by cbv, usage _ _ canonical, effects _ _ Store.canonical_blank⟩

end FlowCheck
