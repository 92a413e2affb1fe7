/-
  FlowCheck.Proofs.Convergence — when a run ends by itself.

  Progress is forced at loop heads only: their inputs grow along a chain. In a domain of finite height
  a chain settles (`settles_head`); in any other the head runs out of joins, and from then on its input
  is only widened (`settles_head_widened`). All other edges lead on in reverse postorder (`Plan.rank_lt`). So if the
  imports of a block settle too, its input, records and exits do, one block after the other
  (`settled_answers`); and once all of them have settled, every turn takes a pending block off and
  wakes none (`pending_step`).

  Imports computed in earlier blocks settle before they are read. Nothing forces progress on a value
  that a block reads late, before it is computed.

  - `converges_iff`: a run ends by itself, for every large enough cap, exactly if the values read
    late settle.
  - `converges_of_inOrder`: so does every run in which none is read late, if widening stabilises.
  - `swap_never_converges`: they need not. A test for equality whose operands are read after it
    teaches each of them the group of the other, forgets both groups for having done so, and learns
    them again for having forgotten.
-/

import FlowCheck.Proofs.Contracts
import FlowCheck.Proofs.Runs
import FlowCheck.Proofs.Settling

namespace FlowCheck

namespace Solver

variable {V F : Type} [Domain V] [DecidableEq V] {p : Solver V F} {s t : State V F} {b : BlockId}
  {input : Store V}

/-! ## What a turn does to one block -/

/-- `t` has the answers of `s` at `b`. -/
structure Untouched (p : Solver V F) (s t : State V F) (b : BlockId) : Prop where
  input : t.input b = s.input b
  exit : t.exit b = s.exit b
  record : ∀ n ∈ p.plan.graph.nodesOf b, t.record n = s.record n

structure Revisited (p : Solver V F) (s t : State V F) (b : BlockId) : Prop where
  plain : b ∉ p.plan.graph.loopHeads → t.input b = p.incoming s b
  head : b ∈ p.plan.graph.loopHeads → Domain.join (s.input b) (t.input b) = t.input b
  exit : t.exit b = (p.sweep b (t.input b) s.nodes ()).exit
  record : ∀ n ∈ p.plan.graph.nodesOf b, t.record n = (p.sweep b (t.input b) s.nodes ()).nodes.get n.index

omit [Domain V] [DecidableEq V] in
theorem SameAnswers.untouched (same : SameAnswers s t) (b : BlockId) : p.Untouched s t b where
  input := same.input_eq b
  exit := by rw [State.exit, same.blocks]; rfl
  record n _ := by rw [State.record, same.nodes]; rfl

/-- The inputs of a loop head grow. -/
theorem Taken.grows [LawfulDomain V] (hp : p.Planned) (shape : Shape p s) (taken : Taken p s b input t)
    (head : b ∈ p.plan.graph.loopHeads) (h : s.All Store.Canonical) (hi : p.initial.Canonical) :
    Domain.join (s.input b) input = input := by
  obtain ⟨rest, -, intake⟩ := taken.first
  have previous := h.input b
  have incoming := h.incoming Store.stable_canonical hi b
  have joined := Store.canonical_join previous incoming
  cases intake with
  | fresh first =>
    have unvisited : s.visited b = false := by
      refine first.resolve_left fun plain => ?_
      rw [hp.isHead_iff.mpr head] at plain
      cases plain
    rw [State.input, shape.unvisited b unvisited]
    exact Store.unreachable_join _
  | kept => exact Store.join_self previous
  | joined =>
    show Domain.join (s.input b) (Domain.join (s.input b) (p.incoming s b)) = _
    rw [Store.join_assoc previous previous incoming, Store.join_self previous]
    rfl
  | widened => exact Store.join_widen_left previous joined

theorem step_answers [LawfulDomain V] (hp : p.Planned) (shape : Shape p s) (h : s.All Store.Canonical)
    (hi : p.initial.Canonical) (b : BlockId) : p.Untouched s (p.step s) b ∨ p.Revisited s (p.step s) b := by
  rcases step_cases hp shape with ⟨-, e⟩ | ⟨c, input, s', taken, ⟨e, -⟩ | ⟨e, -, -⟩⟩
  · rw [e]; exact .inl ⟨rfl, rfl, fun _ _ => rfl⟩
  · rw [e]; exact .inl (taken.sameAnswers.untouched b)
  · have same := taken.sameAnswers.untouched (p := p)
    have shape' := taken.shape shape
    rw [e]
    by_cases own : b = c
    · subst own
      have entered : (p.visit b input s').input b = input := by
        rw [input_visit shape' taken.placed, if_pos rfl]
      refine .inr ⟨fun plain => ?_, fun head => ?_, ?_, fun n _ => ?_⟩
      · rw [entered, (taken.of_plain hp plain).1]
      · rw [entered, taken.grows hp shape head h hi]
      · rw [entered, exit_visit shape' taken.placed, if_pos rfl, taken.sameAnswers.nodes]
      · rw [entered, State.record, nodes_visit, taken.sameAnswers.nodes]
    · refine .inl ⟨?_, ?_, fun n hn => ?_⟩
      · rw [input_visit shape' taken.placed, if_neg own, (same b).input]
      · rw [exit_visit shape' taken.placed, if_neg own, (same b).exit]
      · rw [record_visit fun hc => own (Flowgraph.block_unique hn hc), (same b).record n hn]

/-- What a turn does to the input of a visited loop head: it stays, is joined to, or is widened. -/
theorem step_head (hp : p.Planned) (shape : Shape p s) (head : b ∈ p.plan.graph.loopHeads)
    (again : s.visited b = true) :
    (p.step s).input b = s.input b ∨ (p.step s).joins b = s.joins b + 1 ∨
      ∃ x, (p.step s).input b = Domain.widen (s.input b) (Domain.join (s.input b) x) := by
  rcases step_cases hp shape with ⟨-, e⟩ | ⟨c, input, s', taken, ⟨e, -⟩ | ⟨e, -, -⟩⟩
  · rw [e]; exact .inl rfl
  · rw [e]; exact .inl (taken.sameAnswers.input_eq b)
  · have shape' := taken.shape shape
    rw [e, input_visit shape' taken.placed, joins_visit hp shape' taken.placed]
    by_cases own : b = c
    · subst own
      rw [if_pos rfl]
      obtain ⟨rest, -, intake⟩ := taken.first
      cases intake with
      | fresh first =>
        rcases first with plain | new
        · rw [hp.isHead_iff.mpr head] at plain
          cases plain
        · exact absurd (again.symm.trans new) (by simp)
      | kept => exact .inl rfl
      | joined =>
        have tracked : b.index < s.progress.size := by rw [shape.tracked]; exact index_lt taken.placed
        refine .inr (.inl ?_)
        rw [State.joins, Slots.modify, Slots.get_set_same _ _ tracked]
        rfl
      | widened => exact .inr (.inr ⟨_, rfl⟩)
    · rw [if_neg own]
      exact .inl (taken.sameAnswers.input_eq b)

theorem visited_step (hp : p.Planned) (shape : Shape p s) (visited : s.visited b = true) :
    (p.step s).visited b = true := by
  rcases step_cases hp shape with ⟨-, e⟩ | ⟨c, input, s', taken, ⟨e, -⟩ | ⟨e, -, -⟩⟩
  · rwa [e]
  · rwa [e, taken.sameAnswers.visited]
  · rw [e, visited_visit hp (taken.shape shape) taken.placed, taken.sameAnswers.visited]
    exact .inr visited

theorem joins_step (hp : p.Planned) (shape : Shape p s) (b : BlockId) :
    (p.step s).joins b = s.joins b ∨ (p.step s).joins b = s.joins b + 1 ∧ s.joins b < p.widenDelay := by
  rcases step_cases hp shape with ⟨-, e⟩ | ⟨c, input, s', taken, ⟨e, -⟩ | ⟨e, -, -⟩⟩
  · rw [e]; exact .inl rfl
  · rw [e]; exact taken.joins b
  · rw [e, joins_visit hp (taken.shape shape) taken.placed]; exact taken.joins b

/-! ## Answers settle -/

structure Rests (p : Solver V F) (b : BlockId) : Prop where
  input : Settles fun k => (p.after k).input b
  exit : Settles fun k => (p.after k).exit b
  record : ∀ n ∈ p.plan.graph.nodesOf b, Settles fun k => (p.after k).record n

theorem rests_unplaced (hp : p.Planned) (out : b ∉ p.order) : p.Rests b := by
  have unvisited : ∀ k, (p.after k).visited b = false := fun k =>
    Bool.eq_false_iff.mpr fun h => out ((after_shape hp k).placed b h)
  have blank : ∀ k, (p.after k).blocks.get b.index = {} := fun k =>
    (after_shape hp k).unvisited b (unvisited k)
  refine ⟨settles_const .unreachable fun k => ?_, settles_const {} fun k => ?_,
    fun n hn => settles_const {} fun k => ?_⟩
  · rw [State.input, blank]
  · rw [State.exit, blank]
  · exact (after_shape hp k).unrun n fun c hc => Flowgraph.block_unique hn hc ▸ unvisited k

theorem settles_joins (hp : p.Planned) (b : BlockId) : Settles fun k => (p.after k).joins b := by
  refine settles_of_wellFounded (measure fun j => p.widenDelay - j).wf (K := 0) fun k _ => ?_
  show (p.after (k + 1)).joins b = (p.after k).joins b ∨
    p.widenDelay - (p.after (k + 1)).joins b < p.widenDelay - (p.after k).joins b
  rw [after_succ]
  rcases joins_step hp (after_shape hp k) b with same | ⟨more, early⟩
  · exact .inl same
  · right
    omega

theorem visited_mono (hp : p.Planned) {k j : Nat} (visited : (p.after k).visited b = true) (h : k ≤ j) :
    (p.after j).visited b = true := by
  induction j, h using Nat.le_induction with
  | base => exact visited
  | succ j _ ih =>
    rw [after_succ]
    exact visited_step hp (after_shape hp j) ih

section

variable [LawfulDomain V] (hp : p.Planned) (hlocal : p.transfer.Local p.plan.graph)
  (hτ : p.transfer.Keeps Store.Canonical p.plan.graph) (hi : p.initial.Canonical)

include hp hτ hi

theorem answers_after (k : Nat) (b : BlockId) :
    p.Untouched (p.after k) (p.after (k + 1)) b ∨ p.Revisited (p.after k) (p.after (k + 1)) b := by
  rw [after_succ]
  exact step_answers hp (after_shape hp k) ((all_invariant Store.stable_canonical hi fun _ => hτ).after hp k) hi b

omit [LawfulDomain V] in
theorem canonical_input (k : Nat) (b : BlockId) : ((p.after k).input b).Canonical :=
  ((all_invariant Store.stable_canonical hi fun _ => hτ).after hp k).input b

theorem chain_head (head : b ∈ p.plan.graph.loopHeads) : Chain fun k => (p.after k).input b := by
  intro k
  show Domain.join ((p.after k).input b) ((p.after (k + 1)).input b) = (p.after (k + 1)).input b
  rcases answers_after hp hτ hi k b with same | new
  · rw [same.input]
    exact Store.join_self (canonical_input hp hτ hi k b)
  · exact new.head head

theorem settles_head (finite : FiniteHeight V) (head : b ∈ p.plan.graph.loopHeads) :
    Settles fun k => (p.after k).input b :=
  settles_chain finite (canonical_input hp hτ hi · b) (chain_head hp hτ hi head)

/-- Once a loop head has been visited and has used up its joins, its input is only widened. -/
theorem settles_head_widened (stable : WideningStabilises V) (head : b ∈ p.plan.graph.loopHeads) :
    Settles fun k => (p.after k).input b := by
  by_cases visited : ∃ R, (p.after R).visited b = true
  · obtain ⟨R, hR⟩ := visited
    obtain ⟨J, hJ⟩ := settles_joins hp b
    refine settles_widened stable (canonical_input hp hτ hi · b) (chain_head hp hτ hi head) (K := max R J)
      fun k hk => ?_
    have again := visited_mono hp hR (j := k) (by omega)
    have counted : (p.after (k + 1)).joins b = (p.after k).joins b :=
      (hJ (k + 1) (by omega)).trans (hJ k (by omega)).symm
    rw [after_succ] at counted ⊢
    rcases step_head hp (after_shape hp k) head again with same | joined | widened
    · exact .inl same
    · omega
    · exact .inr widened
  · refine settles_const .unreachable fun k => ?_
    rw [State.input, (after_shape hp k).unvisited b (Bool.eq_false_iff.mpr fun h => visited ⟨k, h⟩)]

theorem settles_plain (plain : b ∉ p.plan.graph.loopHeads)
    (sources : ∀ e ∈ p.plan.graph.predecessors b, Settles fun k => (p.after k).exit e.source) :
    Settles fun k => (p.after k).input b := by
  obtain ⟨K, hK⟩ := exists_settlesAt (g := fun (e : Edge) k => (p.after k).exit e.source) sources
  refine settles_of_choice (K := K) (a := p.incoming (p.after K) b) fun k hk =>
    (answers_after hp hτ hi k b).imp (·.input) fun new => ?_
  rw [new.plain plain]
  exact incoming_congr fun e he => hK e he k hk

include hlocal

/-- The answers at a block settle if its input and imports do. -/
theorem settled_answers (input : Settles fun k => (p.after k).input b)
    (imports : ∀ m ∈ p.plan.graph.imports b, Settles fun k => ((p.after k).record m).value) : p.Rests b := by
  obtain ⟨I, hI⟩ := input
  obtain ⟨M, hM⟩ := exists_settlesAt (g := fun m k => ((p.after k).record m).value) imports
  let K := max I M
  have settled := hI.mono (Nat.le_max_left I M)
  -- every visit from `K` on makes the same sweep
  have sweeps : ∀ k, K ≤ k → p.Revisited (p.after k) (p.after (k + 1)) b →
      (∀ n ∈ p.plan.graph.nodesOf b, (p.after (k + 1)).record n
          = (p.sweep b ((p.after K).input b) (p.after K).nodes ()).nodes.get n.index) ∧
        (p.after (k + 1)).exit b = (p.sweep b ((p.after K).input b) (p.after K).nodes ()).exit :=
    fun k hk new => by
      have reads : ∀ m ∈ p.plan.graph.imports b, tableValue (p.after k).nodes m = tableValue (p.after K).nodes m :=
        fun m hm => congrArg (Option.getD · Domain.top) ((hM m hm).mono (Nat.le_max_right I M) k hk)
      have entered : (p.after (k + 1)).input b = (p.after K).input b := settled (k + 1) (Nat.le_succ_of_le hk)
      refine ⟨fun n hn => ?_, ?_⟩
      · rw [new.record n hn, entered]
        exact (sweep_congr hlocal (after_shape hp k).nodes (after_shape hp K).nodes reads).1 n hn
      · rw [new.exit, entered]
        exact (sweep_congr hlocal (after_shape hp k).nodes (after_shape hp K).nodes reads).2
  refine ⟨⟨I, hI⟩, ?_, fun n hn => ?_⟩
  · exact settles_of_choice fun k hk => (answers_after hp hτ hi k b).imp (·.exit) fun new => (sweeps k hk new).2
  · exact settles_of_choice fun k hk =>
      (answers_after hp hτ hi k b).imp (·.record n hn) fun new => (sweeps k hk new).1 n hn

/-- If the inputs of loop heads settle, and the values that are read late, everything does. -/
theorem rests_of_late (heads : ∀ b ∈ p.plan.graph.loopHeads, Settles fun k => (p.after k).input b)
    (late : ∀ b ∈ p.order, ∀ m, p.plan.graph.ReadsLate b m → Settles fun k => ((p.after k).record m).value)
    (b : BlockId) : p.Rests b := by
  by_cases placed : b ∈ p.order
  · -- by induction on the rank
    suffices ∀ r, ∀ b ∈ p.order, p.rankOf b = r → p.Rests b from this _ b placed rfl
    intro r
    induction r using Nat.strongRecOn with
    | ind r ih =>
      intro b placed rank
      have earlier : ∀ c, (c ∈ p.order → p.rankOf c < p.rankOf b) → p.Rests c := fun c before => by
        by_cases hc : c ∈ p.order
        · exact ih _ (rank ▸ before hc) c hc rfl
        · exact rests_unplaced hp hc
      refine settled_answers hp hlocal hτ hi ?_ fun m hm => ?_
      · by_cases head : b ∈ p.plan.graph.loopHeads
        · exact heads b head
        · refine settles_plain hp hτ hi head fun e he => (earlier _ fun source => ?_).exit
          obtain ⟨edge, rfl⟩ := Flowgraph.mem_predecessors.mp he
          unfold rankOf
          rw [hp]
          exact Plan.rank_lt edge head source
      · by_cases home : ∃ c, m ∈ p.plan.graph.nodesOf c
        · obtain ⟨c, hc⟩ := home
          by_cases hl : p.plan.graph.ReadsLate b m
          · exact late b placed m hl
          · refine ((earlier c fun placed => ?_).record m hc).comp (·.value)
            unfold rankOf
            rw [hp]
            exact Nat.lt_of_not_le fun le => hl ⟨hm, c, placed, hc, le⟩
        · -- a node of no block is never run
          exact settles_const none fun k => congrArg (·.value)
            ((after_shape hp k).unrun m fun c hc => (home ⟨c, hc⟩).elim)
  · exact rests_unplaced hp placed

end

/-! ## Settled runs end -/

/-- A turn that changes no answer takes the first pending block off, and adds none. -/
theorem pending_step (hp : p.Planned) (shape : Shape p s) (same : ∀ b ∈ p.order, p.Untouched s (p.step s) b) :
    (p.step s).pending = s.pending.tail := by
  rcases step_cases hp shape with ⟨none_, e⟩ | ⟨b, input, s', taken, ⟨e, -⟩ | ⟨e, -, -⟩⟩
  · rw [e, none_]; rfl
  · rw [e, taken.pending]; rfl
  · have shape' := taken.shape shape
    have before := taken.sameAnswers.untouched (p := p) b
    have after := same b taken.placed
    rw [e] at after ⊢
    have exit : (p.sweep b input s'.nodes s'.memory).exit = s'.exit b := by
      have left : (p.visit b input s').exit b = (p.sweep b input s'.nodes s'.memory).exit := by
        rw [exit_visit shape' taken.placed, if_pos rfl]
      rw [← left, after.exit, before.exit]
    have unchanged : (p.sweep b input s'.nodes s'.memory).changed = [] := by
      refine List.eq_nil_iff_forall_not_mem.mpr fun m hm => ?_
      obtain ⟨hb, changed⟩ := (mem_changed shape'.nodes m).mp hm
      refine changed ?_
      rw [← nodes_visit]
      exact congrArg (·.value) ((before.record m hb).trans (after.record m hb).symm)
    have quiet : p.alerted b input s' = [] := by rw [alerted, unchanged]; rfl
    rw [visit_eq, if_neg (not_not.mpr exit), quiet, taken.pending]
    rfl

theorem quiet_of_rests (hp : p.Planned) (rests : ∀ b, p.Rests b) : ∃ k, (p.after k).pending = [] := by
  obtain ⟨I, hI⟩ := exists_settlesAt (l := p.order) fun b _ => (rests b).input
  obtain ⟨E, hE⟩ := exists_settlesAt (l := p.order) fun b _ => (rests b).exit
  obtain ⟨R, hR⟩ := exists_settlesAt (l := p.order.flatMap p.plan.graph.nodesOf) fun n hn => by
    obtain ⟨b, -, hb⟩ := List.mem_flatMap.mp hn
    exact (rests b).record n hb
  have untouched : ∀ k, max I (max E R) ≤ k → ∀ b ∈ p.order, p.Untouched (p.after k) (p.after (k + 1)) b :=
    fun k hk b hb => by
      refine ⟨?_, ?_, fun n hn => ?_⟩
      · exact ((hI b hb).mono (by omega)) (k + 1) (by omega)
      · exact ((hE b hb).mono (by omega)) (k + 1) (by omega)
      · exact ((hR n (List.mem_flatMap.mpr ⟨b, hb, hn⟩)).mono (by omega)) (k + 1) (by omega)
  -- by induction on how much is pending
  suffices ∀ l k, max I (max E R) ≤ k → (p.after k).pending = l → ∃ j, (p.after j).pending = [] from
    this _ _ (Nat.le_refl _) rfl
  intro l
  induction l with
  | nil => exact fun k _ quiet => ⟨k, quiet⟩
  | cons r l ih =>
    intro k hk pending
    have same := untouched k hk
    rw [after_succ] at same
    refine ih (k + 1) (by omega) ?_
    rw [after_succ, pending_step hp (after_shape hp k) same, pending]
    rfl

/-! ## Caps -/

section

variable {σ : Type} {p : Solver V F σ} {t : State V F σ}

theorem visits_step (p : Solver V F σ) (s : State V F σ) : s.stats.visits ≤ (p.step s).stats.visits := by
  unfold step
  cases turn : p.turn s with
  | done => exact Nat.le_refl _
  | idle s' => exact Nat.le_of_eq (p.turn_idle turn).1.symm
  | visit b input s' =>
    dsimp only
    rw [p.visit_visits, p.turn_visit turn]
    exact Nat.le_succ _

theorem visits_mono (p : Solver V F σ) {k j : Nat} (h : k ≤ j) :
    (p.after k).stats.visits ≤ (p.after j).stats.visits := by
  induction j, h using Nat.le_induction with
  | base => exact Nat.le_refl _
  | succ j _ ih => exact Nat.le_trans ih (after_succ p j ▸ p.visits_step _)

/-- Only visits write records. -/
theorem nodes_eq_of_visits (hp : p.Planned) {k j : Nat} (h : k ≤ j)
    (same : (p.after j).stats.visits = (p.after k).stats.visits) : (p.after j).nodes = (p.after k).nodes := by
  induction j, h using Nat.le_induction with
  | base => rfl
  | succ j hj ih =>
    have first := p.visits_mono hj
    have last := after_succ p j ▸ p.visits_step (p.after j)
    rw [← ih (by omega), after_succ]
    rcases step_cases hp (after_shape hp j) with ⟨-, e⟩ | ⟨b, input, s', taken, ⟨e, -⟩ | ⟨e, -, -⟩⟩
    · rw [e]
    · rw [e]
      exact taken.sameAnswers.nodes
    · have made : (p.after (j + 1)).stats.visits = s'.stats.visits + 1 := by
        rw [after_succ, e, p.visit_visits]
      have before := taken.sameAnswers.visits
      omega

/-- Once nothing is pending, nothing happens. -/
theorem after_quiet {k j : Nat} (quiet : (p.after k).pending = []) (h : k ≤ j) : p.after j = p.after k := by
  induction j, h using Nat.le_induction with
  | base => rfl
  | succ j _ ih =>
    rw [after_succ, ih, step, turn_done_iff.mpr quiet]

/-- A visit is made, or refused, before the first state with nothing pending. -/
theorem lt_of_quiet {k j : Nat} (quiet : (p.after k).pending = []) (turn : p.turn (p.after j) = .visit b input t) :
    j < k := by
  by_contra late
  rw [after_quiet quiet (Nat.le_of_not_lt late), turn_done_iff.mpr quiet] at turn
  cases turn

/-- Every state after a visit has counted it. -/
theorem visits_lt {k j : Nat} (turn : p.turn (p.after k) = .visit b input t) (h : k < j) :
    (p.after k).stats.visits < (p.after j).stats.visits := by
  have next : (p.after (k + 1)).stats.visits = (p.after k).stats.visits + 1 := by
    rw [after_succ, step, turn, ← p.turn_visit turn]
    exact p.visit_visits b input t
  have := p.visits_mono (Nat.succ_le_of_lt h)
  rw [Nat.succ_eq_add_one] at this
  omega

/-- A run ends where nothing is pending, if the cap allows for the visits made by then. -/
theorem solve_of_quiet {k : Nat} (quiet : (p.after k).pending = []) (room : (p.after k).stats.visits ≤ p.maxVisits) :
    p.solve = (p.after k).result := by
  rcases p.solve_ends with ⟨j, ended, -, result⟩ | ⟨j, b, input, t, turn, spent, -⟩
  · rw [result]
    rcases Nat.le_total j k with early | late
    · rw [after_quiet ended early]
    · rw [after_quiet quiet late]
  · have := visits_lt turn (lt_of_quiet quiet turn)
    omega

/-- A run with nothing left pending ends by itself, if the cap allows for its visits. -/
theorem converged_of_quiet (hp : p.Planned) {k : Nat} (quiet : (p.after k).pending = [])
    (room : (p.after k).stats.visits ≤ p.maxVisits) : p.solve.stats.converged = true := by
  rw [solve_of_quiet quiet room]
  exact (after_shape hp k).converged

/-- A run ends where a visit is due and none is left. -/
theorem solve_of_spent {k : Nat} (turn : p.turn (p.after k) = .visit b input t)
    (spent : (p.after k).stats.visits = p.maxVisits) :
    p.solve = t.givenUp := by
  rcases p.solve_ends with ⟨j, ended, room, -⟩ | ⟨j, c, input', t', turn', spent', result⟩
  · have := visits_lt turn (lt_of_quiet ended turn)
    omega
  · have same : j = k := by
      rcases Nat.lt_trichotomy j k with early | same | late
      · have := visits_lt turn' early
        omega
      · exact same
      · have := visits_lt turn late
        omega
    rw [same, turn] at turn'
    cases turn'
    exact result

end

end Solver

/-! ## Convergence -/

section

variable {V F : Type} [Domain V] [DecidableEq V]

/-- The run ends by itself, for every large enough cap. -/
def Flowgraph.Converges (g : Flowgraph) (τ : Transfer V F) (initial : Store V) (widenDelay : Nat) : Prop :=
  ∃ N, ∀ maxVisits, N ≤ maxVisits → (g.problem τ initial widenDelay maxVisits).solve.stats.converged = true

/-- The state after `k` turns does not depend on the cap. -/
theorem Flowgraph.after_problem (g : Flowgraph) (τ : Transfer V F)
    (initial : Store V) (widenDelay maxVisits k : Nat) :
    (g.problem τ initial widenDelay maxVisits).after k = (g.problem τ initial widenDelay 0).after k := rfl

/-- A run capped at the visits of some state leaves the records of that state. -/
theorem Flowgraph.nodes_of_cap (g : Flowgraph) (τ : Transfer V F) (initial : Store V) (widenDelay k : Nat) :
    (g.problem τ initial widenDelay ((g.problem τ initial widenDelay 0).after k).stats.visits).solve.nodes =
      ((g.problem τ initial widenDelay 0).after k).nodes := by
  let p := g.problem τ initial widenDelay ((g.problem τ initial widenDelay 0).after k).stats.visits
  obtain ⟨j, -, nodes, room, ended⟩ := Solver.solve_answers (p := p) rfl
  rw [nodes]
  rcases Nat.le_total j k with early | late
  · rcases ended with quiet | spent
    · exact congrArg Solver.State.nodes (Solver.after_quiet (p := p) quiet early).symm
    · exact (Solver.nodes_eq_of_visits (p := p) rfl early spent.symm).symm
  · exact Solver.nodes_eq_of_visits (p := p) rfl late (Nat.le_antisymm room (p.visits_mono late))

theorem Flowgraph.converges_of_rests {g : Flowgraph} {τ : Transfer V F} {initial : Store V} {widenDelay : Nat}
    (rests : ∀ b, (g.problem τ initial widenDelay 0).Rests b) : g.Converges τ initial widenDelay := by
  obtain ⟨k, quiet⟩ := Solver.quiet_of_rests (p := g.problem τ initial widenDelay 0) rfl rests
  refine ⟨((g.problem τ initial widenDelay 0).after k).stats.visits, fun maxVisits room => ?_⟩
  have uncapped := after_problem g τ initial widenDelay maxVisits k
  exact Solver.converged_of_quiet rfl (uncapped ▸ quiet) (uncapped ▸ room)

variable [LawfulDomain V] {g : Flowgraph} {τ : Transfer V F} {initial : Store V}

/-- A run ends by itself, for every large enough cap, exactly if the values read late settle in the
run without a cap. -/
theorem Flowgraph.converges_iff (finite : FiniteHeight V) (hlocal : τ.Local g) (hτ : τ.Keeps Store.Canonical g)
    (hi : initial.Canonical) (widenDelay : Nat) :
    g.Converges τ initial widenDelay ↔
      ∀ b ∈ g.reversePostorder, ∀ m, g.ReadsLate b m →
        Settles fun k => (((g.problem τ initial widenDelay 0).after k).record m).value := by
  constructor
  · rintro ⟨N, converges⟩ b - m -
    obtain ⟨k, quiet, -⟩ := Solver.quiet_of_converged (converges N (Nat.le_refl N))
    rw [after_problem] at quiet
    refine ⟨k, fun j hj => ?_⟩
    exact congrArg (fun s => (Solver.State.record s m).value) (Solver.after_quiet quiet hj)
  · intro late
    exact converges_of_rests (Solver.rests_of_late (p := g.problem τ initial widenDelay 0) rfl hlocal hτ hi
      (fun _ head => Solver.settles_head rfl hτ hi finite head) late)

/-- Where widening stabilises and no value is read late, a run ends by itself. -/
theorem Flowgraph.converges_of_inOrder (stable : WideningStabilises V) (hlocal : τ.Local g)
    (hτ : τ.Keeps Store.Canonical g) (hi : initial.Canonical) (ordered : g.InOrder) (widenDelay : Nat) :
    g.Converges τ initial widenDelay :=
  converges_of_rests (Solver.rests_of_late (p := g.problem τ initial widenDelay 0) rfl hlocal hτ hi
    (fun _ head => Solver.settles_head_widened rfl hτ hi stable head)
    fun b placed m late => absurd late (inOrder_iff.mp ordered b placed m))

end

/-! ## The usage analysis -/

namespace Constants

/-- The usage analysis of a routine ends by itself, for every large enough cap, exactly if the values
its blocks read late settle. -/
theorem Scope.converges_iff_settles (s : Scope) (r : Routine) (g : Flowgraph) (widenDelay : Nat) :
    (∃ N, ∀ maxVisits, N ≤ maxVisits →
        (g.problem s.transfer (Routine.entryStore r) widenDelay maxVisits).solve.stats.converged = true) ↔
      ∀ b ∈ g.reversePostorder, ∀ m, g.ReadsLate b m →
        Settles fun k => (((g.problem s.transfer (Routine.entryStore r) widenDelay 0).after k).record m).value :=
  Flowgraph.converges_iff finiteHeight_taggedValue (s.transfer_local g) (s.transfer_keepsCanonical g)
    (entryStore_spec r).1 widenDelay

/-! ### A run that never ends -/

/-- Compares two parameters that it reads only afterwards. -/
def swap : Flowgraph where
  blocks := #[{ id := ⟨0⟩, role := .entry, nodes := [⟨0⟩, ⟨1⟩, ⟨2⟩] }]
  nodes := #[{ id := ⟨0⟩, operation := .binary .eq ⟨1⟩ ⟨2⟩ }, { id := ⟨1⟩, operation := .read (.local "x") },
    { id := ⟨2⟩, operation := .read (.local "y") }]
  edges := []
  checked := by decide

def swapStore : Store TaggedValue :=
  Routine.entryStore { name := "f", parameters := [⟨"x", .int, some "A"⟩, ⟨"y", .int, some "B"⟩] }

def swapProblem (widenDelay maxVisits : Nat) : Solver TaggedValue Misuse :=
  swap.problem (Scope.transfer ⟨.empty, "D"⟩) swapStore widenDelay maxVisits

def member (group : String) : TaggedValue := .typed .int (.value (.member group))

/-- An integer that was taught a group other than its own. -/
def confused : TaggedValue := .typed .int .top

/-- What the two operands are between two visits: not read yet, as declared, or confused. -/
def swapPhases : List (Option TaggedValue × Option TaggedValue) :=
  [(none, none), (some (member "A"), some (member "B")), (some confused, some confused)]

def swapTable (phase : Option TaggedValue × Option TaggedValue) : Slots (NodeRecord TaggedValue Misuse) :=
  ((Slots.filled 3 {}).set 1 { value := phase.1 }).set 2 { value := phase.2 }

def operandsIn (t : Slots (NodeRecord TaggedValue Misuse)) : Option TaggedValue × Option TaggedValue :=
  ((t.get 1).value, (t.get 2).value)

theorem swap_phases : ∀ phase ∈ swapPhases,
    let t := ((swapProblem 0 0).sweep ⟨0⟩ swapStore (swapTable phase) ()).nodes
    operandsIn t ∈ swapPhases ∧ phase.1 ≠ (t.get 1).value := by decide

section

variable {widenDelay maxVisits : Nat}

/-- A visit leads on to another phase: it depends on the operands alone. -/
theorem swap_sweep {t : Slots (NodeRecord TaggedValue Misuse)} (size : t.size = 3)
    (phase : operandsIn t ∈ swapPhases) :
    let t' := ((swapProblem widenDelay maxVisits).sweep ⟨0⟩ swapStore t ()).nodes
    operandsIn t' ∈ swapPhases ∧ (t.get 1).value ≠ (t'.get 1).value := by
  have reads : ∀ m ∈ swap.imports ⟨0⟩, tableValue t m = tableValue (swapTable (operandsIn t)) m := by
    intro m hm
    rcases List.mem_pair.mp hm with rfl | rfl <;> rfl
  have same : ∀ n ∈ swap.nodesOf ⟨0⟩, ((swapProblem widenDelay maxVisits).sweep ⟨0⟩ swapStore t ()).nodes.get n.index =
      ((swapProblem 0 0).sweep ⟨0⟩ swapStore (swapTable (operandsIn t)) ()).nodes.get n.index :=
    (Solver.sweep_congr (p := swapProblem widenDelay maxVisits) (b := ⟨0⟩) (Scope.transfer_local _ _) size rfl
      reads).1
  have first := congrArg (·.value) (same ⟨1⟩ (by decide))
  have second := congrArg (·.value) (same ⟨2⟩ (by decide))
  obtain ⟨next, changed⟩ := swap_phases _ phase
  have operands : operandsIn ((swapProblem widenDelay maxVisits).sweep ⟨0⟩ swapStore t ()).nodes =
      operandsIn ((swapProblem 0 0).sweep ⟨0⟩ swapStore (swapTable (operandsIn t)) ()).nodes :=
    congrArg₂ Prod.mk first second
  refine ⟨?_, fun e => changed (e.trans first)⟩
  rw [operands]
  exact next

theorem swap_planned : (swapProblem widenDelay maxVisits).Planned := rfl

theorem swap_taken {s s' : Solver.State TaggedValue Misuse} {b : BlockId} {input : Store TaggedValue}
    (taken : (swapProblem widenDelay maxVisits).Taken s b input s') : b = ⟨0⟩ ∧ input = swapStore := by
  have placed : b ∈ swap.reversePostorder := taken.placed
  rw [show swap.reversePostorder = [⟨0⟩] by cbv, List.mem_singleton] at placed
  subst placed
  refine ⟨rfl, (taken.of_plain swap_planned ?_).1⟩
  show ⟨0⟩ ∉ swap.loopHeads
  rw [show swap.loopHeads = [] by cbv]
  exact List.not_mem_nil

structure Swapping (s : Solver.State TaggedValue Misuse) : Prop where
  pending : s.pending ≠ []
  stale : s.visited ⟨0⟩ = true → s.stale ⟨0⟩ = true
  phase : operandsIn s.nodes ∈ swapPhases

theorem swapping_invariant : (swapProblem widenDelay maxVisits).Invariant Swapping where
  start := ⟨List.cons_ne_nil _ _, (by cases ·), List.mem_cons_self⟩
  idle {s s' b input} shape h taken why := by
    obtain ⟨rfl, rfl⟩ := swap_taken taken
    rcases why with none_ | current
    · cases none_
    · obtain ⟨visited, fresh, -⟩ := Solver.isCurrent_iff.mp current
      rw [taken.sameAnswers.visited] at visited
      rw [taken.sameAnswers.stale, h.stale visited] at fresh
      cases fresh
  visit {s s' b input} shape h taken live new := by
    obtain ⟨rfl, rfl⟩ := swap_taken taken
    have phase := h.phase
    rw [← taken.sameAnswers.nodes] at phase
    obtain ⟨next, changed⟩ := swap_sweep shape.nodes phase
    have own : ⟨1⟩ ∈ swap.nodesOf ⟨0⟩ := by decide
    have imported : ⟨1⟩ ∈ swap.imports ⟨0⟩ := by decide
    have woken : (swapProblem widenDelay maxVisits).Woken s' ⟨0⟩ swapStore ⟨0⟩ :=
      ⟨.inl rfl, ⟨1⟩, (Solver.mem_changed shape.nodes _).mpr ⟨own, changed⟩, imported⟩
    refine ⟨List.ne_nil_of_mem ((Solver.pending_visit swap_planned shape taken.placed).mpr (.inr ⟨_, .inl woken, rfl⟩)),
      fun _ => (Solver.stale_visit swap_planned shape taken.placed _).mpr (.inl woken), ?_⟩
    rw [Solver.nodes_visit]
    exact next

end

/-- Under no limits does the analysis of the swap end by itself. -/
theorem swap_never_converges : ¬∃ limits : Limits,
    (swap.analyze (Scope.transfer ⟨.empty, "D"⟩) swapStore limits).stats.converged = true := by
  rintro ⟨limits, converged⟩
  obtain ⟨k, quiet, -⟩ := Solver.quiet_of_converged
    (p := swapProblem limits.widenDelay.toNat limits.maxVisits.toNat) converged
  exact (swapping_invariant.after swap_planned k).pending quiet

end Constants

end FlowCheck
