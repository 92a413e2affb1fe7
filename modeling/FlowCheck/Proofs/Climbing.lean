/-
  FlowCheck.Proofs.Climbing — what a run does to the input of a loop head, from its first visit on.

  A renewal is a turn that changes the recorded input of a block that was visited before. Its parts are
  read off the states around the turn (`renewal?`), so `renewals b k` is the history of one slot of the
  state over the first `k` turns.

  What a turn can do to the heads that were visited before is said once (`headTurn_step`): nothing, or one
  of them joins what flows in, for which it must have joins left, or one of them is widened. A block that is
  taken off without a visit keeps its input and counts nothing, because a join or a widening that is
  needed always changes the input. So the history of a head is paced by the delay (`paced_after`): as many
  joins as the delay allows, then nothing but widenings; and the widenings counted are those of all
  heads together (`widenings_after`).

  Every renewal climbs (`heads_climb`), as joins and widenings are above what they are made from. A run
  that is given up may have counted a widening whose visit was refused; so it counts no fewer than it made.
-/

import FlowCheck.Proofs.Truncation
import Mathlib.Data.List.Iterate

namespace FlowCheck

/-- A change to the recorded input of a block that was visited before. -/
structure Renewal (V : Type) where
  old : Store V
  /-- The join of what flowed in at that moment. -/
  incoming : Store V
  new : Store V
  /-- The run counted a widening for it. -/
  widened : Bool

namespace Renewal

variable {V : Type} [Domain V] [DecidableEq V] (r : Renewal V)

structure Joins : Prop where
  uncounted : r.widened = false
  joined : r.new = Domain.join r.old r.incoming

structure Widens : Prop where
  counted : r.widened = true
  widened : r.new = Domain.widen r.old (Domain.join r.old r.incoming)

/-- The new input is strictly above the old one, and accounts for what flowed in. -/
structure Climbs : Prop where
  above : Domain.below r.old r.new = true
  strict : r.new ≠ r.old
  covers : Domain.below r.incoming r.new = true

end Renewal

namespace Solver

variable {V F σ : Type} [Domain V] [DecidableEq V] {p : Solver V F σ} {s s' t : State V F σ} {b c : BlockId}
  {input : Store V} {k : Nat}

def renewalAt (p : Solver V F σ) (b : BlockId) (k : Nat) : Renewal V where
  old := (p.after k).input b
  incoming := p.incoming (p.after k) b
  new := (p.after (k + 1)).input b
  widened := (p.after k).stats.widenings < (p.after (k + 1)).stats.widenings

def renewal? (p : Solver V F σ) (b : BlockId) (k : Nat) : Option (Renewal V) :=
  if (p.after k).visited b = true ∧ (p.after (k + 1)).input b ≠ (p.after k).input b then some (p.renewalAt b k)
  else none

def renewals (p : Solver V F σ) (b : BlockId) (k : Nat) : List (Renewal V) := (List.range k).filterMap (p.renewal? b)

/-- How many renewals of loop heads in the first `k` turns are widenings. -/
def widened (p : Solver V F σ) (k : Nat) : Nat :=
  (p.plan.graph.loopHeads.map fun b => (p.renewals b k).countP (·.widened)).sum

theorem renewals_succ (p : Solver V F σ) (b : BlockId) (k : Nat) :
    p.renewals b (k + 1) = p.renewals b k ++ (p.renewal? b k).toList := by
  unfold renewals
  rw [List.range_succ, List.filterMap_append]
  cases h : p.renewal? b k <;> simp [h]

/-! ## One turn -/

inductive HeadTurn (p : Solver V F σ) (s t : State V F σ) : Prop where
  /-- Their inputs stay, and nothing is counted. -/
  | stay (inputs : ∀ b ∈ p.plan.graph.loopHeads, s.visited b = true → t.input b = s.input b)
      (joins : ∀ b, t.joins b = s.joins b) (widenings : t.stats.widenings = s.stats.widenings)
  /-- One of them joins what flows in. -/
  | join (c : BlockId) (head : c ∈ p.plan.graph.loopHeads) (again : s.visited c = true)
      (early : s.joins c < p.widenDelay) (new : Domain.join (s.input c) (p.incoming s c) ≠ s.input c)
      (inputs : ∀ b, t.input b = if b = c then Domain.join (s.input c) (p.incoming s c) else s.input b)
      (joins : ∀ b, t.joins b = if b = c then s.joins c + 1 else s.joins b)
      (widenings : t.stats.widenings = s.stats.widenings)
  /-- One of them is widened. -/
  | widen (c : BlockId) (head : c ∈ p.plan.graph.loopHeads) (again : s.visited c = true)
      (late : p.widenDelay ≤ s.joins c)
      (new : Domain.widen (s.input c) (Domain.join (s.input c) (p.incoming s c)) ≠ s.input c)
      (inputs : ∀ b, t.input b =
        if b = c then Domain.widen (s.input c) (Domain.join (s.input c) (p.incoming s c)) else s.input b)
      (joins : ∀ b, t.joins b = s.joins b) (widenings : t.stats.widenings = s.stats.widenings + 1)

/-- A block that is taken off without a visit has counted nothing. -/
theorem Taken.uncounted [LawfulDomain V] (taken : Taken p s b input s') (shape : Shape p s)
    (h : s.All Store.Canonical) (hi : p.initial.Canonical) (idle : input = .unreachable ∨ s'.isCurrent b input = true) :
    (∀ c, s'.joins c = s.joins c) ∧ s'.stats.widenings = s.stats.widenings := by
  have previous := h.input b
  have incoming := h.incoming Store.stable_canonical hi b
  have kept : input.isReachable = true → input = s.input b := by
    intro live
    rcases idle with nothing | current
    · rw [nothing] at live
      cases live
    · rw [(isCurrent_iff.mp current).2.2, taken.sameAnswers.input_eq]
  obtain ⟨rest, -, intake⟩ := taken.first
  cases intake with
  | fresh => exact ⟨fun _ => rfl, rfl⟩
  | kept => exact ⟨fun _ => rfl, rfl⟩
  | joined _ again new =>
    refine absurd (kept ?_) new
    rw [Store.isReachable_join]
    exact Bool.or_eq_true_iff.mpr (.inl (shape.reached b again))
  | widened _ again new =>
    refine absurd (kept ?_) (Store.widen_join_ne previous incoming new)
    rw [Store.isReachable_widen]
    exact Bool.or_eq_true_iff.mpr (.inl (shape.reached b again))

theorem headTurn_step [LawfulDomain V] (hp : p.Planned) (shape : Shape p s) (h : s.All Store.Canonical)
    (hi : p.initial.Canonical) : HeadTurn p s (p.step s) := by
  rcases step_cases hp shape with ⟨-, e⟩ | ⟨c, input, s', taken, ⟨e, idle⟩ | ⟨e, -, -⟩⟩
  · rw [e]
    exact .stay (fun _ _ _ => rfl) (fun _ => rfl) rfl
  · obtain ⟨joins, widenings⟩ := taken.uncounted shape h hi idle
    rw [e]
    exact .stay (fun b _ _ => taken.sameAnswers.input_eq b) joins widenings
  · have shape' := taken.shape shape
    have inputs : ∀ b, (p.step s).input b = if b = c then input else s.input b := by
      intro b
      rw [e, input_visit shape' taken.placed, taken.sameAnswers.input_eq]
    have joins : ∀ b, (p.step s).joins b = s'.joins b := by
      intro b
      rw [e, joins_visit hp shape' taken.placed]
    have widenings : (p.step s).stats.widenings = s'.stats.widenings := by
      rw [e]
      exact (p.visit_counted s' c input).2
    have tracked : c.index < s.progress.size := by
      rw [shape.tracked]
      exact index_lt taken.placed
    obtain ⟨rest, -, intake⟩ := taken.first
    cases intake with
    | fresh first =>
      refine .stay ?_ joins widenings
      intro b head again
      rw [inputs]
      split
      · rename_i own
        subst own
        -- a head that was visited is not taken afresh
        rcases first with plain | unvisited
        · rw [hp.isHead_iff.mpr head] at plain
          cases plain
        · exact absurd (again.symm.trans unvisited) (by simp)
      · rfl
    | kept =>
      refine .stay ?_ joins widenings
      intro b _ _
      rw [inputs]
      split
      · rename_i own
        subst own
        rfl
      · rfl
    | joined head again new early =>
      refine .join c (hp.isHead_iff.mp head) again early new inputs ?_ widenings
      intro b
      rw [joins]
      simp only [State.joins, Slots.modify, Slots.get_set, tracked, and_true, BlockId.index_inj, eq_comm (a := c)]
      split <;> rfl
    | widened head again new late =>
      have incoming := h.incoming Store.stable_canonical hi c
      exact .widen c (hp.isHead_iff.mp head) again late (Store.widen_join_ne (h.input c) incoming new) inputs joins
        widenings

/-! ## The history of a head -/

theorem renewal?_eq_some_iff {r : Renewal V} :
    p.renewal? b k = some r ↔
      ((p.after k).visited b = true ∧ (p.after (k + 1)).input b ≠ (p.after k).input b) ∧
        r = p.renewalAt b k := by
  unfold renewal?
  split
  · rename_i h
    simp [h, eq_comm]
  · rename_i h
    simp [h]

theorem renewals_of_same (same : (p.after k).visited b = true → (p.after (k + 1)).input b = (p.after k).input b) :
    p.renewals b (k + 1) = p.renewals b k := by
  have none_ : p.renewal? b k = none := by
    rw [Option.eq_none_iff_forall_ne_some]
    intro r h
    obtain ⟨⟨again, new⟩, -⟩ := renewal?_eq_some_iff.mp h
    exact new (same again)
  rw [renewals_succ, none_, Option.toList_none, List.append_nil]

theorem renewals_of_new (again : (p.after k).visited b = true)
    (new : (p.after (k + 1)).input b ≠ (p.after k).input b) :
    p.renewals b (k + 1) = p.renewals b k ++ [p.renewalAt b k] := by
  rw [renewals_succ, renewal?_eq_some_iff.mpr ⟨⟨again, new⟩, rfl⟩]
  rfl

/-- A turn that gives `c` another input lengthens the history of `c` alone. -/
theorem renewals_of_inputs {new : Store V} (again : (p.after k).visited c = true) (changed : new ≠ (p.after k).input c)
    (inputs : ∀ b, (p.after (k + 1)).input b = if b = c then new else (p.after k).input b) (b : BlockId) :
    p.renewals b (k + 1) = if b = c then p.renewals b k ++ [p.renewalAt b k] else p.renewals b k := by
  have own := inputs b
  split at own
  · rename_i e
    subst e
    rw [if_pos rfl]
    exact renewals_of_new again (own ▸ changed)
  · rename_i other
    rw [if_neg other]
    exact renewals_of_same fun _ => own

theorem exists_turn_of_mem {r : Renewal V} (h : r ∈ p.renewals b k) : ∃ j < k, p.renewal? b j = some r := by
  obtain ⟨j, hj, found⟩ := List.mem_filterMap.mp h
  exact ⟨j, List.mem_range.mp hj, found⟩

/-- The first renewals of `b` are joins, as many as the delay allows, and the others widenings. -/
structure Paced (p : Solver V F σ) (b : BlockId) (k : Nat) : Prop where
  counted : (p.after k).joins b = min (p.renewals b k).length p.widenDelay
  joined : ∀ r ∈ (p.renewals b k).take p.widenDelay, r.Joins
  widened : ∀ r ∈ (p.renewals b k).drop p.widenDelay, r.Widens

theorem Paced.stay (h : Paced p b k) (renewals : p.renewals b (k + 1) = p.renewals b k)
    (joins : (p.after (k + 1)).joins b = (p.after k).joins b) : Paced p b (k + 1) where
  counted := by rw [joins, renewals, h.counted]
  joined := by rw [renewals]; exact h.joined
  widened := by rw [renewals]; exact h.widened

theorem Paced.join (h : Paced p b k) {r : Renewal V} (renewals : p.renewals b (k + 1) = p.renewals b k ++ [r])
    (early : (p.after k).joins b < p.widenDelay) (joins : (p.after (k + 1)).joins b = (p.after k).joins b + 1)
    (hr : r.Joins) : Paced p b (k + 1) := by
  have counted := h.counted
  have room : (p.renewals b k).length < p.widenDelay := by omega
  have old := h.joined
  rw [List.take_of_length_le (by omega)] at old
  have short : (p.renewals b (k + 1)).length ≤ p.widenDelay := by
    rw [renewals, List.length_append, List.length_singleton]
    omega
  refine ⟨?_, ?_, ?_⟩
  · rw [joins, renewals, List.length_append, List.length_singleton]
    omega
  · intro q hq
    rw [List.take_of_length_le short, renewals] at hq
    rcases List.mem_append.mp hq with hq | hq
    · exact old q hq
    · rw [List.mem_singleton.mp hq]
      exact hr
  · intro q hq
    rw [List.drop_of_length_le short] at hq
    cases hq

theorem Paced.widen (h : Paced p b k) {r : Renewal V} (renewals : p.renewals b (k + 1) = p.renewals b k ++ [r])
    (late : p.widenDelay ≤ (p.after k).joins b) (joins : (p.after (k + 1)).joins b = (p.after k).joins b)
    (hr : r.Widens) : Paced p b (k + 1) := by
  have counted := h.counted
  have full : p.widenDelay ≤ (p.renewals b k).length := by omega
  refine ⟨?_, ?_, ?_⟩
  · rw [joins, renewals, List.length_append, List.length_singleton]
    omega
  · rw [renewals, List.take_append_of_le_length full]
    exact h.joined
  · intro q hq
    rw [renewals, List.drop_append_of_le_length full] at hq
    rcases List.mem_append.mp hq with hq | hq
    · exact h.widened q hq
    · rw [List.mem_singleton.mp hq]
      exact hr

/-! ## Runs -/

theorem sum_map_of_one {l : List BlockId} {f f' : BlockId → Nat} (nodup : l.Nodup) (mem : c ∈ l) (here : f' c = f c + 1)
    (others : ∀ b, b ≠ c → f' b = f b) : (l.map f').sum = (l.map f).sum + 1 := by
  have rest : (l.erase c).map f' = (l.erase c).map f :=
    List.map_congr_left fun b hb => others b fun same => nodup.not_mem_erase (same ▸ hb)
  rw [← List.sum_map_erase f' mem, ← List.sum_map_erase f mem, rest, here]
  omega

section

variable [LawfulDomain V] (hp : p.Planned) (hτ : p.client.Keeps Store.Canonical p.plan.graph)
  (hi : p.initial.Canonical)

include hp hτ hi

theorem headTurn_after (k : Nat) : HeadTurn p (p.after k) (p.after (k + 1)) := by
  rw [after_succ]
  exact headTurn_step hp (after_shape hp k) ((all_invariant Store.stable_canonical hi hτ).after hp k) hi

theorem paced_after (head : b ∈ p.plan.graph.loopHeads) (k : Nat) : Paced p b k := by
  induction k with
  | zero => exact ⟨by simp [after, start, State.joins, renewals], by simp [renewals], by simp [renewals]⟩
  | succ k ih =>
    cases headTurn_after hp hτ hi k with
    | stay inputs joins _ => exact ih.stay (renewals_of_same (inputs b head)) (joins b)
    | join c _ again early new inputs joins widenings =>
      have history := renewals_of_inputs again new inputs b
      by_cases own : b = c
      · subst own
        rw [if_pos rfl] at history
        refine ih.join history early ((joins b).trans (if_pos rfl)) ⟨?_, (inputs b).trans (if_pos rfl)⟩
        simp [renewalAt, widenings]
      · rw [if_neg own] at history
        exact ih.stay history ((joins b).trans (if_neg own))
    | widen c _ again late new inputs joins widenings =>
      have history := renewals_of_inputs again new inputs b
      by_cases own : b = c
      · subst own
        rw [if_pos rfl] at history
        refine ih.widen history late (joins b) ⟨?_, (inputs b).trans (if_pos rfl)⟩
        simp [renewalAt, widenings]
      · rw [if_neg own] at history
        exact ih.stay history (joins b)

/-- Every widening counted is one of the renewals of a head. -/
theorem widenings_after (k : Nat) : (p.after k).stats.widenings = p.widened k := by
  induction k with
  | zero => simp [after, start, widened, renewals]
  | succ k ih =>
    unfold widened at ih ⊢
    cases headTurn_after hp hτ hi k with
    | stay inputs _ widenings =>
      rw [widenings, ih]
      congr 1
      refine List.map_congr_left fun b head => ?_
      rw [renewals_of_same (inputs b head)]
    | join c _ again _ new inputs _ widenings =>
      rw [widenings, ih]
      congr 1
      refine List.map_congr_left fun b _ => ?_
      rw [renewals_of_inputs again new inputs]
      split
      · simp [List.countP_append, renewalAt, widenings]
      · rfl
    | widen c head again _ new inputs _ widenings =>
      rw [widenings, ih]
      refine (sum_map_of_one (Flowgraph.nodup_blockIds.filter _) head ?_ ?_).symm
      · rw [renewals_of_inputs again new inputs, if_pos rfl]
        simp [List.countP_append, renewalAt, widenings]
      · intro b other
        rw [renewals_of_inputs again new inputs, if_neg other]

/-- Renewals of a head climb. -/
theorem climbs_of_mem (head : b ∈ p.plan.graph.loopHeads) {r : Renewal V} (h : r ∈ p.renewals b k) : r.Climbs := by
  have paced := paced_after hp hτ hi head k
  obtain ⟨j, -, found⟩ := exists_turn_of_mem h
  obtain ⟨⟨-, new⟩, rfl⟩ := renewal?_eq_some_iff.mp found
  have stores := (all_invariant Store.stable_canonical hi hτ).after hp j
  have old : (p.renewalAt b j).old.Canonical := stores.input b
  have incoming : (p.renewalAt b j).incoming.Canonical := stores.incoming Store.stable_canonical hi b
  have joined := Store.canonical_join old incoming
  rw [← List.take_append_drop p.widenDelay (p.renewals b k)] at h
  rcases List.mem_append.mp h with h | h
  · have join := (paced.joined _ h).joined
    refine ⟨?_, new, ?_⟩
    · rw [join]
      exact Store.below_join_left old incoming
    · rw [join]
      exact Store.below_join_right old incoming
  · have widen := (paced.widened _ h).widened
    refine ⟨?_, new, ?_⟩
    · rw [widen]
      exact Store.below_widen_left old joined
    · rw [widen]
      exact Store.below_trans joined (Store.canonical_widen old joined) (Store.below_join_right old incoming)
        (Store.below_widen_right old joined)

end

/-! ## The end of a run -/

/-- A run ends after `k` turns: nothing is pending then, or as many visits as the cap allows were made and
the next one is refused. -/
def EndsAfter (p : Solver V F σ) (k : Nat) : Prop :=
  ((p.after k).pending = [] ∧ (p.after k).stats.visits ≤ p.maxVisits ∧ p.solve = (p.after k).result) ∨
    ∃ b input t, p.turn (p.after k) = .visit b input t ∧ (p.after k).stats.visits = p.maxVisits ∧
      p.solve = t.givenUp

theorem exists_endsAfter (p : Solver V F σ) : ∃ k, p.EndsAfter k := by
  rcases p.solve_ends with ⟨k, quiet⟩ | ⟨k, refused⟩
  · exact ⟨k, .inl quiet⟩
  · exact ⟨k, .inr refused⟩

/-- A run that is given up may have counted the widening of the visit that was refused. -/
theorem EndsAfter.widenings (hp : p.Planned) (ended : p.EndsAfter k) :
    (p.after k).stats.widenings ≤ p.solve.stats.widenings ∧
      (p.solve.stats.converged = true → p.solve.stats.widenings = (p.after k).stats.widenings) := by
  rcases ended with ⟨-, -, result⟩ | ⟨b, input, t, turn, -, result⟩
  · rw [result]
    exact ⟨Nat.le_refl _, fun _ => rfl⟩
  · have taken := (hp.taken_of_visit (after_shape hp k) turn).1
    rw [result]
    refine ⟨taken.counted.2, ?_⟩
    intro converged
    cases converged

end Solver

/-- Every change to the input of a loop head after its first visit leads strictly upwards, above what
flows in. At each head the first changes, as many as the delay allows, are plain joins, and all later ones
widenings. A run has counted no fewer widenings than it made, and exactly as many if it converged. Of the
client nothing is asked but that it lets no explicit top entry out, whatever it remembers. -/
theorem Flowgraph.heads_climb {V F σ : Type} [Domain V] [DecidableEq V] [LawfulDomain V] {g : Flowgraph}
    {f : Client V F σ} {initial : Store V} (hf : f.Keeps Store.Canonical g) (hi : initial.Canonical) (memory : σ)
    (limits : Limits) :
    let p := g.problemWith f memory initial limits.widenDelay.toNat limits.maxVisits.toNat
    let stats := (g.analyzeWith f memory initial limits).1.stats
    (∃ k, p.EndsAfter k) ∧ ∀ k, p.EndsAfter k →
      (∀ b ∈ g.loopHeads,
        (∀ r ∈ p.renewals b k, r.Climbs) ∧
          (∀ r ∈ (p.renewals b k).take limits.widenDelay.toNat, r.Joins) ∧
          ∀ r ∈ (p.renewals b k).drop limits.widenDelay.toNat, r.Widens) ∧
        p.widened k ≤ stats.widenings ∧ (stats.converged = true → stats.widenings = p.widened k) := by
  intro p stats
  have planned : p.Planned := rfl
  refine ⟨p.exists_endsAfter, ?_⟩
  intro k ended
  refine ⟨?_, ?_⟩
  · intro b head
    have paced := Solver.paced_after planned hf hi head k
    exact ⟨fun r hr => Solver.climbs_of_mem planned hf hi head hr, paced.joined, paced.widened⟩
  · rw [← Solver.widenings_after planned hf hi k]
    exact ended.widenings planned

/-- The run takes five turns. The head of the loop joins the second number that flows in, and is widened
at the third. -/
theorem heads_climb_countingLoop :
    let p := countingLoop.problemWith Counting.client 0 .blank 1 10000
    let stats := (countingLoop.analyzeWith Counting.client 0 .blank { widenDelay := 1 }).1.stats
    stats = { visits := 4, transfers := 11, widenings := 1, converged := true } ∧
      p.EndsAfter 5 ∧ p.widened 5 = 1 ∧ (∀ r ∈ p.renewals ⟨1⟩ 5, r.Climbs) ∧
      ∃ first later, p.renewals ⟨1⟩ 5 = first :: later ∧ first.Joins ∧ ∀ r ∈ later, r.Widens := by
  intro p stats
  have last : ((p.after 5).pending, (p.after 5).stats) =
      ([], { visits := 4, transfers := 11, widenings := 1, converged := true }) := by
    show (((countingLoop.problemWith Counting.client 0 .blank 1 10000).after 5).pending,
      ((countingLoop.problemWith Counting.client 0 .blank 1 10000).after 5).stats) = _
    cbv
  have loop : countingLoop.loopHeads = [⟨1⟩] := by cbv
  obtain ⟨quiet, made⟩ := Prod.mk.inj last
  have room : (p.after 5).stats.visits ≤ p.maxVisits := by
    rw [made]
    show 4 ≤ 10000
    omega
  have result := Solver.solve_of_quiet quiet room
  have same : (countingLoop.analyzeWith Counting.client 0 .blank { widenDelay := 1 }).1 = p.solve := rfl
  have full : stats = { visits := 4, transfers := 11, widenings := 1, converged := true } := by
    show (countingLoop.analyzeWith Counting.client 0 .blank { widenDelay := 1 }).1.stats = _
    rw [same, result]
    exact made
  have ended : p.EndsAfter 5 := .inl ⟨quiet, room, result⟩
  have keeps : Counting.client.Keeps Store.Canonical countingLoop := fun _ =>
    Counting.transfer_keepsCanonical countingLoop
  obtain ⟨heads, -, counted⟩ := (Flowgraph.heads_climb keeps Store.canonical_blank 0 { widenDelay := 1 }).2 5 ended
  obtain ⟨climbs, joins, widens⟩ := heads ⟨1⟩ (by rw [loop]; exact List.mem_cons_self)
  have one : p.widened 5 = 1 :=
    (counted (congrArg Stats.converged full)).symm.trans (congrArg Stats.widenings full)
  refine ⟨full, ended, one, climbs, ?_⟩
  cases history : p.renewals ⟨1⟩ 5 with
  | nil =>
    have heads : p.plan.graph.loopHeads = [⟨1⟩] := loop
    simp [Solver.widened, heads, history] at one
  | cons first later =>
    have joins : ∀ r ∈ (p.renewals ⟨1⟩ 5).take 1, r.Joins := joins
    have widens : ∀ r ∈ (p.renewals ⟨1⟩ 5).drop 1, r.Widens := widens
    rw [history] at joins widens
    exact ⟨first, later, rfl, joins first List.mem_cons_self, widens⟩

end FlowCheck
