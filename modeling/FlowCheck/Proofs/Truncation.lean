/-
  FlowCheck.Proofs.Truncation — a cap on visits cuts a run short, and does nothing else.

  The states a run goes through do not depend on its cap; the cap decides where it stops. That is
  the first state with nothing pending, if the cap has room for the visits made by then
  (`solve_of_quiet`), and otherwise the state in which a visit is due and none is left
  (`solve_of_spent`). The counters never fall on the way (`counted_mono`). A widening is counted
  before the visit it is for, so a run that stops there has counted it: no more than the run that
  goes on, which counts the same widening and then makes the visit.
-/

import FlowCheck.Proofs.Widening
import Mathlib.Algebra.Module.Submodule.Lattice
import Mathlib.Data.List.Permutation

namespace FlowCheck

variable {V F σ : Type} [Domain V] [DecidableEq V]

namespace Solver

variable {p : Solver V F σ} {s s' t : State V F σ} {b : BlockId} {input : Store V}

/-! ## Counters grow -/

theorem visit_counted (p : Solver V F σ) (s : State V F σ) (b : BlockId) (input : Store V) :
    s.stats.transfers ≤ (p.visit b input s).stats.transfers ∧
      (p.visit b input s).stats.widenings = s.stats.widenings := by
  rw [stats_visit]
  exact ⟨Nat.le_add_right _ _, rfl⟩

theorem step_counted (hp : p.Planned) (shape : Shape p s) :
    s.stats.transfers ≤ (p.step s).stats.transfers ∧ s.stats.widenings ≤ (p.step s).stats.widenings := by
  rcases step_cases hp shape with ⟨-, e⟩ | ⟨b, input, s', taken, ⟨e, -⟩ | ⟨e, -, -⟩⟩
  · rw [e]
    exact ⟨Nat.le_refl _, Nat.le_refl _⟩
  · rw [e]
    exact ⟨Nat.le_of_eq taken.counted.1.symm, taken.counted.2⟩
  · obtain ⟨transfers, widenings⟩ := p.visit_counted s' b input
    obtain ⟨same, counted⟩ := taken.counted
    rw [e]
    exact ⟨same ▸ transfers, widenings ▸ counted⟩

theorem counted_mono (hp : p.Planned) {k j : Nat} (h : k ≤ j) :
    (p.after k).stats.transfers ≤ (p.after j).stats.transfers ∧
      (p.after k).stats.widenings ≤ (p.after j).stats.widenings := by
  induction j, h using Nat.le_induction with
  | base => exact ⟨Nat.le_refl _, Nat.le_refl _⟩
  | succ j _ ih =>
    have next := step_counted hp (after_shape hp j)
    rw [after_succ]
    exact ⟨Nat.le_trans ih.1 next.1, Nat.le_trans ih.2 next.2⟩

/-- A run given up before a visit has counted no more than any state after that visit. -/
theorem refused_counted (hp : p.Planned) {k j : Nat} (turn : p.turn (p.after k) = .visit b input t) (h : k < j) :
    t.stats.transfers ≤ (p.after j).stats.transfers ∧ t.stats.widenings ≤ (p.after j).stats.widenings := by
  have made : p.after (k + 1) = p.visit b input t := by rw [after_succ, step, turn]
  obtain ⟨transfers, widenings⟩ := p.visit_counted t b input
  have later := counted_mono hp (Nat.succ_le_of_lt h)
  rw [Nat.succ_eq_add_one, made] at later
  exact ⟨Nat.le_trans transfers later.1, widenings ▸ later.2⟩

end Solver

/-! ## Runs with different caps -/

/-- If a run ends by itself, every cap that allows for its visits gives the same outcome, and every
smaller one a run that is given up after as many visits as the cap allows, with no more transfers and
widenings counted. Whatever is given up has made as many visits as its cap allows; so if no cap lets the
run end by itself, that is what every run does. -/
theorem Flowgraph.cap_truncates (g : Flowgraph) (τ : Transfer V F) (initial : Store V) (widenDelay : UInt64) :
    let run (maxVisits : UInt64) := g.analyze τ initial { widenDelay, maxVisits }
    (∀ full, (run full).stats.converged = true → ∀ cap : UInt64,
        ((run full).stats.visits ≤ cap.toNat → run cap = run full) ∧
          (cap.toNat < (run full).stats.visits →
            (run cap).stats.converged = false ∧ (run cap).stats.visits = cap.toNat ∧
              (run cap).stats.transfers ≤ (run full).stats.transfers ∧
              (run cap).stats.widenings ≤ (run full).stats.widenings)) ∧
      ∀ cap, (run cap).stats.converged = false → (run cap).stats.visits = cap.toNat := by
  intro run
  let p (cap : UInt64) : Solver V F := g.problem τ initial widenDelay.toNat cap.toNat
  refine ⟨fun full converged cap => ?_, fun cap gaveUp => ?_⟩
  · obtain ⟨k, quiet, result⟩ := Solver.quiet_of_converged (p := p full) converged
    have ended : run full = ((p full).after k).result := result
    -- the states of the two runs are the same
    have quiet : ((p cap).after k).pending = [] := quiet
    rw [ended]
    refine ⟨fun room => Solver.solve_of_quiet (p := p cap) quiet room, fun short => ?_⟩
    rcases (p cap).solve_ends with ⟨j, ended, room, -⟩ | ⟨j, b, input, t, turn, spent, result⟩
    · have same : (p cap).after j = (p cap).after k := by
        rcases Nat.le_total j k with early | late
        · exact (Solver.after_quiet ended early).symm
        · exact Solver.after_quiet quiet late
      rw [same] at room
      exact absurd short (Nat.not_lt_of_le room)
    · have cut : run cap = t.givenUp := result
      have counted := Solver.refused_counted (p := p cap) rfl turn (Solver.lt_of_quiet quiet turn)
      rw [cut]
      exact ⟨rfl, ((p cap).turn_visit turn).trans spent, counted⟩
  · rcases (p cap).solve_ends with ⟨k, -, -, result⟩ | ⟨k, b, input, t, turn, spent, result⟩
    · have ended : run cap = ((p cap).after k).result := result
      have converged := (Solver.after_shape (p := p cap) rfl k).converged
      rw [ended] at gaveUp
      exact absurd (converged.symm.trans gaveUp) (by decide)
    · have cut : run cap = t.givenUp := result
      rw [cut]
      exact ((p cap).turn_visit turn).trans spent

/-- The loop needs four visits, the third of them after a join and the fourth after a widening. With
three it is given up when the widening is counted already. The comparison of `swap` is never done. -/
theorem cap_truncates_countingLoop :
    let run (maxVisits : UInt64) := countingLoop.analyze Counting.transfer .blank { widenDelay := 1, maxVisits }
    let swapping := Constants.swap.analyze (Constants.Scope.transfer ⟨.empty, "D"⟩) Constants.swapStore
      { widenDelay := 1, maxVisits := 1 }
    (run 10000).stats = { visits := 4, transfers := 11, widenings := 1, converged := true } ∧ run 4 = run 10000 ∧
      ((run 3).stats.converged = false ∧ (run 3).stats.visits = 3 ∧ (run 3).stats.transfers ≤ 11 ∧
        (run 3).stats.widenings ≤ 1) ∧
      swapping.stats.converged = false ∧ swapping.stats.visits = 1 := by
  intro run swapping
  have full : (run 10000).stats = { visits := 4, transfers := 11, widenings := 1, converged := true } := by cbv
  have refused : swapping.stats.converged = false := by cbv
  have converged : (run 10000).stats.converged = true := congrArg Stats.converged full
  have truncates := (Flowgraph.cap_truncates countingLoop Counting.transfer .blank 1).1 10000 converged
  have same := (truncates 4).1
  have cut := (truncates 3).2
  rw [full] at same cut
  exact ⟨full, same (by decide), cut (by decide), refused,
    (Flowgraph.cap_truncates Constants.swap _ Constants.swapStore 1).2 1 refused⟩

end FlowCheck
