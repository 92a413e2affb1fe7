/-
  FlowCheck.Proofs.FieldValues — what is known of a field is what was declared of it.

  A store respects the declaration of a place if what it knows of the place has the declared tag, or
  a lower one (`Respects`). Only assignments record values of fields, and one that records a value
  with another tag reports it. So a run in which no visit reports an assignment respects every
  declaration everywhere.

  What is reported at the end is what the last visits had to report. The input of a loop head,
  though, keeps what earlier visits let in, and those may have seen other values: a converged run
  that reports no assignment respects a declaration everywhere but behind loop heads whose input
  does not (`Final.allAt_or_head`). In `relearned` the first visit takes a literal for a value of a group
  and assigns it to a field; later visits know better and report nothing.
-/

import FlowCheck.Proofs.Convergence
import FlowCheck.Proofs.Equality

namespace FlowCheck

/-! ## Stores of a result -/

section

variable {V F : Type}

def Result.AllAt (r : Result V F) (g : Flowgraph) (b : BlockId) (P : Store V → Prop) : Prop :=
  P (r.block b).input ∧ (r.block b).exit.All P ∧ ∀ n ∈ g.nodesOf b, (r.node n).All P

def Result.All (r : Result V F) (P : Store V → Prop) : Prop :=
  (∀ b, P (r.block b).input ∧ (r.block b).exit.All P) ∧ ∀ n, (r.node n).All P

def Flowgraph.Leads (g : Flowgraph) : BlockId → BlockId → Prop :=
  Relation.ReflTransGen fun a b => ∃ e ∈ g.edges, e.source = a ∧ e.target = b

variable [Domain V] [DecidableEq V]

namespace Store

theorem find?_combine {op : V → V → V} {a b : Store V} {p : Place} {v : V}
    (h : (combine op a b).find? p = some v) :
    a.find? p = some v ∨ b.find? p = some v ∨ ∃ x y, a.find? p = some x ∧ b.find? p = some y ∧ v = op x y := by
  cases a with
  | unreachable => cases b <;> exact .inr (.inl h)
  | known m =>
    cases b with
    | unreachable => exact .inl h
    | known n =>
      simp only [combine, find?, SortedMap.find?_intersectWith, Option.bind_eq_some_iff] at h
      obtain ⟨x, hx, y, hy, h⟩ := h
      exact .inr (.inr ⟨x, y, hx, hy, (informative_eq_some_iff.mp h).1.symm⟩)

theorem find?_set {s : Store V} {p q : Place} {v w : V} (h : (s.set q v).find? p = some w) :
    p = q ∧ w = v ∨ p ≠ q ∧ s.find? p = some w := by
  cases s with
  | unreachable => cases h
  | known m =>
    unfold set Domain.isTop at h
    by_cases top : v = Domain.top
    · simp only [top, decide_true, if_true, find?, SortedMap.find?_erase] at h
      split at h
      · cases h
      · rename_i other; exact .inr ⟨Ne.symm other, h⟩
    · simp only [top, decide_false, Bool.false_eq_true, if_false, find?, SortedMap.find?_insert] at h
      split at h
      · rename_i same; exact .inl ⟨same.symm, (Option.some.inj h).symm⟩
      · rename_i other; exact .inr ⟨Ne.symm other, h⟩

omit [Domain V] [DecidableEq V] in
theorem find?_forgetFields {s : Store V} {p : Place} {v : V} (h : s.forgetFields.find? p = some v) :
    s.find? p = some v := by
  cases s with
  | unreachable => cases h
  | known m =>
    simp only [forgetFields, find?, SortedMap.find?_filter, Option.filter_eq_some_iff] at h
    exact h.1

end Store

/-! ## Replays without a complaint -/

/-- Running nodes that report nothing but what is fine keeps what such effects keep. -/
theorem Flowgraph.all_replayNodes {g : Flowgraph} {τ : Transfer V F} {fine : F → Prop} {P : Store V → Prop}
    (hP : Store.Stable P) (hτ : τ.KeepsWhile fine P g) {look : NodeId → V} {l : List NodeId} {out : Outflow V}
    {handlers : Store V} (whenTrue : P out.whenTrue) (whenFalse : P out.whenFalse) (seen : P handlers)
    (clean : ∀ record ∈ (g.replayNodes τ look l out handlers).1, ∀ m ∈ record.facts, fine m) :
    (∀ record ∈ (g.replayNodes τ look l out handlers).1, record.All P) ∧
      (g.replayNodes τ look l out handlers).2.All P := by
  induction l generalizing out handlers with
  | nil =>
    refine ⟨fun _ h => (List.not_mem_nil h).elim, fun k => ?_⟩
    cases k
    · exact hP.merged whenTrue whenFalse
    · exact whenTrue
    · exact whenFalse
    · exact seen
  | cons n l ih =>
    have before := hP.merged whenTrue whenFalse
    have effect : (g.effectAt τ look n out.merged).All P :=
      effectAt_allWhile hP.unreachable hτ look n before (clean _ List.mem_cons_self)
    obtain ⟨records, exit⟩ := ih effect.1 effect.2.1 (hP.seenBy effect seen)
      fun record h => clean record (List.mem_cons_of_mem _ h)
    exact ⟨List.forall_mem_cons.mpr ⟨⟨before, hP.merged effect.1 effect.2.1⟩, records⟩, exit⟩

theorem Flowgraph.all_replay {g : Flowgraph} {τ : Transfer V F} {fine : F → Prop} {P : Store V → Prop}
    (hP : Store.Stable P) (hτ : τ.KeepsWhile fine P g) {look : NodeId → V} {b : BlockId} {input : Store V} (h : P input)
    (clean : ∀ record ∈ (g.replay τ look b input).1, ∀ m ∈ record.facts, fine m) :
    (∀ record ∈ (g.replay τ look b input).1, record.All P) ∧ (g.replay τ look b input).2.All P :=
  all_replayNodes hP hτ h h hP.unreachable clean

section

variable {g : Flowgraph} {τ : Transfer V F} {initial : Store V} {r : Result V F} {b : BlockId} {P : Store V → Prop}
  (solved : SolvedAt g τ initial r b) (hP : Store.Stable P)

include solved hP

theorem SolvedAt.input_all (plain : b ∉ g.loopHeads) (hi : P initial)
    (inflow : ∀ e ∈ g.edges, e.target = b → (r.block e.source).exit.All P) : P (r.block b).input := by
  rw [solved.plain plain]
  refine hP.joinAll fun s hs => ?_
  rcases List.mem_append.mp hs with hs | hs
  · split at hs
    · rw [List.mem_singleton.mp hs]; exact hi
    · cases hs
  · obtain ⟨e, he, rfl⟩ := List.mem_map.mp hs
    obtain ⟨edge, target⟩ := Flowgraph.mem_predecessors.mp he
    exact inflow e edge target e.kind

theorem SolvedAt.allAt {fine : F → Prop} (hτ : τ.KeepsWhile fine P g) (input : P (r.block b).input)
    (clean : ∀ n ∈ g.nodesOf b, ∀ m ∈ (r.node n).facts, fine m) : r.AllAt g b P := by
  have reported : ∀ record ∈ (g.replay τ r.valueOf b (r.block b).input).1, ∀ m ∈ record.facts, fine m := by
    rw [solved.replay]
    exact List.forall_mem_map.mpr clean
  obtain ⟨records, exit⟩ := Flowgraph.all_replay hP hτ input reported
  rw [solved.replay] at records exit
  exact ⟨input, exit, List.forall_mem_map.mp records⟩

end

namespace Solver

variable {p : Solver V F} {t : State V F} {P : Store V → Prop} {fine : F → Prop} {b : BlockId}

/-- Nothing is known to be reachable at a block that was never visited. -/
theorem Final.allAt_unvisited (final : p.Final t) (hP : P .unreachable) (away : t.visited b = false) :
    p.solve.AllAt p.plan.graph b P := by
  have empty : p.solve.block b = {} := by rw [final.result]; exact final.shape.unvisited b away
  refine ⟨by rwa [empty], fun k => by rwa [empty, BlockExit.along_empty], fun n hn => ?_⟩
  have unrun : p.solve.node n = {} := by
    rw [final.result]
    exact final.shape.unrun n fun c hc => by rw [Flowgraph.block_unique hc hn, away]
  rw [unrun]
  exact ⟨hP, hP⟩

/-- At the end of a run that reports nothing but what is fine, what such effects keep holds of every
store at a block, unless it fails at the input of a loop head before it. -/
theorem Final.allAt_or_head (final : p.Final t) (traced : p.Traced t) (hp : p.Planned)
    (entered : p.initial.isReachable = true) (hP : Store.Stable P) (hτ : p.transfer.KeepsWhile fine P p.plan.graph)
    (hi : P p.initial) (clean : ∀ n, ∀ m ∈ (p.solve.node n).facts, fine m) (b : BlockId) :
    p.solve.AllAt p.plan.graph b P ∨
      ∃ h ∈ p.plan.graph.loopHeads, p.plan.graph.Leads h b ∧ ¬P (p.solve.block h).input := by
  by_contra fails
  obtain ⟨notAll, noHead⟩ := not_or.mp fails
  have heads : ∀ h ∈ p.plan.graph.loopHeads, p.plan.graph.Leads h b → P (p.solve.block h).input := fun h hh leads =>
    by_contra fun bad => noHead ⟨h, hh, leads, bad⟩
  refine notAll ?_
  clear fails notAll noHead
  -- by induction on the rank: whatever flows into a block that is no loop head comes from lower ranks
  induction rank : p.rankOf b using Nat.strong_induction_on generalizing b with
  | _ r ih =>
    subst rank
    cases visited : t.visited b with
    | false => exact final.allAt_unvisited hP.unreachable visited
    | true =>
      have solved := final.solvedAt_live traced entered (traced.live b visited)
      refine solved.allAt hP hτ ?_ fun n _ => clean n
      by_cases head : b ∈ p.plan.graph.loopHeads
      · exact heads b head .refl
      · refine solved.input_all hP head hi fun e edge target => ?_
        cases from_ : t.visited e.source with
        | false => exact (final.allAt_unvisited hP.unreachable from_).2.1
        | true =>
          have lower : p.rankOf e.source < p.rankOf b := by
            have := Plan.rank_lt edge (target ▸ head) (final.shape.placed _ from_)
            rwa [target, ← hp] at this
          exact (ih _ lower e.source (fun h hh leads => heads h hh (leads.tail ⟨e, edge, rfl, target⟩)) rfl).2.1

end Solver

end

namespace Constants.Scope

variable (s : Scope)

/-! ## Declared values -/

/-- What the store knows of a place has the declared tag, or a lower one. -/
def Respects (p : Place) (store : Store TaggedValue) : Prop :=
  ∀ v d, store.find? p = some v → s.declared? p = some d → Domain.below v.qualifier d.qualifier = true

theorem qualifier_combine_below {op : Tag → Tag → Tag} {d : Tag}
    (hop : ∀ {p q}, Domain.below p d = true → Domain.below q d = true → Domain.below (op p q) d = true)
    {v w : TaggedValue} (hv : Domain.below v.qualifier d = true) (hw : Domain.below w.qualifier d = true) :
    Domain.below (Qualified.combine op v w).qualifier d = true := by
  cases v with
  | never => cases w <;> exact hw
  | typed type tag =>
    cases w with
    | never => exact hv
    | typed => exact hop hv hw

variable {s} {p : Place}

theorem Respects.combine {op : Tag → Tag → Tag}
    (hop : ∀ {p q d}, Domain.below p d = true → Domain.below q d = true → Domain.below (op p q) d = true)
    {a b : Store TaggedValue} (ha : s.Respects p a) (hb : s.Respects p b) :
    s.Respects p (Store.combine (Qualified.combine op) a b) := by
  intro v d hv hd
  rcases Store.find?_combine hv with h | h | ⟨x, y, hx, hy, rfl⟩
  · exact ha v d h hd
  · exact hb v d h hd
  · exact qualifier_combine_below hop (ha x d hx hd) (hb y d hy hd)

theorem respects_stable : Store.Stable (s.Respects p) where
  unreachable _ _ h := by cases h
  join ha hb := Respects.combine (fun hp hq => join_below hp hq) ha hb
  widen ha hb := Respects.combine (fun hp hq => join_below hp hq) ha hb

theorem declared?_of_not_isField {q : Place} (h : q.isField = false) : s.declared? q = none := by
  cases q with
  | field => cases h
  | _ => rfl

theorem Respects.set {store : Store TaggedValue} (h : s.Respects p store) {q : Place} {v : TaggedValue}
    (fits : ∀ d, s.declared? q = some d → Domain.below v.qualifier d.qualifier = true) :
    s.Respects p (store.set q v) := by
  intro w d hw hd
  rcases Store.find?_set hw with ⟨rfl, rfl⟩ | ⟨-, hw⟩
  · exact fits d hd
  · exact h w d hw hd

theorem Respects.setOther {store : Store TaggedValue} (h : s.Respects p store) {q : Place} (v : TaggedValue)
    (other : q.isField = false) : s.Respects p (store.set q v) :=
  h.set fun d hd => by rw [declared?_of_not_isField other] at hd; cases hd

theorem Respects.learn {g : Flowgraph} {store : Store TaggedValue} (h : s.Respects p store) (operand : NodeId)
    (other : TaggedValue) : s.Respects p (learn g store operand other) := by
  unfold Scope.learn
  split
  · rename_i q _ hq
    exact h.setOther _ (refinable?_eq_some_iff.mp hq).2
  · exact h

/-- An effect that reports no assignment records no value of a field that is not as declared. -/
theorem transfer_respects (g : Flowgraph) : s.transfer.KeepsWhile (·.place ≠ .assignment) (s.Respects p) g := by
  intro node store look h clean
  unfold transfer at clean ⊢
  cases op : node.operation with
  | assign target value =>
    simp only [op] at clean ⊢
    have assigned : s.Respects p (store.set target (look value)) := h.set fun d hd => by
      by_contra wrong
      simp only [hd, factUnless, wrong] at clean
      exact clean _ (List.mem_singleton.mpr rfl) rfl
    exact ⟨assigned, assigned, fun _ ht => by cases ht⟩
  | binary op' lhs rhs =>
    have learned : s.Respects p (Scope.learn g (Scope.learn g store lhs (look rhs)) rhs (look lhs)) :=
      (h.learn lhs _).learn rhs _
    refine ⟨?_, ?_, fun t ht => ?_⟩
    · unfold binaryOutflow
      cases op' <;> first | exact learned | exact h
    · unfold binaryOutflow
      cases op' <;> first | exact learned | exact h
    · simp only [ite_eq_iff, Option.some.injEq, reduceCtorEq, and_false, or_false] at ht
      exact ht.2 ▸ h
  | call =>
    have forgotten : s.Respects p store.forgetFields := fun v d hv hd => h v d (Store.find?_forgetFields hv) hd
    exact ⟨forgotten, forgotten, fun t ht => by cases ht; exact forgotten⟩
  | handler parameter exception =>
    have bound := h.setOther (q := .local parameter) (.plain (.reference (exception.getD "Throwable"))) rfl
    exact ⟨bound, bound, fun _ ht => by cases ht⟩
  | raise => exact ⟨respects_stable.unreachable, respects_stable.unreachable, fun t ht => by cases ht; exact h⟩
  | _ => exact ⟨h, h, fun t ht => by cases ht <;> exact h⟩

/-- A routine starts with values of its parameters only. -/
theorem respects_entryStore (r : Routine) : s.Respects p (Routine.entryStore r) :=
  List.foldlRecOn (motive := s.Respects p) r.parameters _ (fun _ _ h => by cases h) fun _ h _ _ => h.setOther _ rfl

/-! ## What a run reports -/

variable {limits : Limits} {r : Routine} {g : Flowgraph} (body : r.body = some g)

include body

theorem check_eq : s.check limits r =
    (misuseDiagnostics g (r.qualifiedName s.current) (g.analyze s.transfer (Routine.entryStore r) limits),
      some (g.analyze s.transfer (Routine.entryStore r) limits)) := by
  simp only [check, analyze, body, Option.map_some]

/-- If the check reports no assignment then no node recorded one. -/
theorem clean_of_check (silent : ∀ d ∈ (s.check limits r).1, d.kind ≠ .mixing .assignment) (n : NodeId) :
    ∀ m ∈ ((g.analyze s.transfer (Routine.entryStore r) limits).node n).facts, m.place ≠ .assignment := by
  intro m hm bad
  let p := g.problem s.transfer (Routine.entryStore r) limits.widenDelay.toNat limits.maxVisits.toNat
  obtain ⟨k, -, nodes, -⟩ := Solver.solve_answers (p := p) rfl
  have shape := Solver.after_shape (p := p) rfl k
  have record : p.solve.node n = (p.after k).record n := by rw [Result.node, nodes]; rfl
  have hm : m ∈ (p.solve.node n).facts := hm
  have inside : n.index < p.solve.nodes.size := by
    rw [nodes, shape.nodes]
    rcases shape.record_cases n with ⟨b, hn, -⟩ | empty
    · obtain ⟨node, hn, -⟩ := g.node_of_mem hn
      exact (Array.getElem?_eq_some_iff.mp hn).1
    · rw [record, empty] at hm
      cases hm
  have listed : (n, m) ∈ p.solve.allFacts := by
    refine List.mem_flatMap.mpr ⟨n.index, List.mem_range.mpr inside, List.mem_map.mpr ⟨m, hm, ?_⟩⟩
    rw [NodeId.ofIndex_index]
  rw [check_eq body] at silent
  exact silent _ (List.mem_map_of_mem listed) (congrArg DiagnosticKind.mixing bad)

/-- If the check reports no assignment however early it is stopped, every store respects every declaration. -/
theorem all_respect (silent : ∀ m ≤ limits.maxVisits, ∀ d ∈ (s.check { limits with maxVisits := m } r).1,
    d.kind ≠ .mixing .assignment) (p : Place) :
    (g.analyze s.transfer (Routine.entryStore r) limits).All (s.Respects p) := by
  let q := g.problem s.transfer (Routine.entryStore r) limits.widenDelay.toNat limits.maxVisits.toNat
  obtain ⟨k, blocks, nodes, room, -⟩ := Solver.solve_answers (p := q) rfl
  have clean : ∀ j ≤ k, (q.after j).Clean (F := Misuse) (·.place ≠ .assignment) := fun j hj n => by
    have within : (q.after j).stats.visits ≤ limits.maxVisits.toNat := Nat.le_trans (q.visits_mono hj) room
    have cap : (UInt64.ofNat (q.after j).stats.visits).toNat = (q.after j).stats.visits :=
      UInt64.toNat_ofNat_of_lt' (Nat.lt_of_le_of_lt within limits.maxVisits.toNat_lt)
    have allowed : UInt64.ofNat (q.after j).stats.visits ≤ limits.maxVisits := by
      rwa [UInt64.le_iff_toNat_le, cap]
    have early := clean_of_check body (silent _ allowed) n
    have stopped := g.nodes_of_cap s.transfer (Routine.entryStore r) limits.widenDelay.toNat j
    rw [Result.node, Flowgraph.analyze_eq, cap] at early
    rw [Solver.State.record, ← show _ = (q.after j).nodes from stopped]
    exact early
  have all : (q.after k).All (s.Respects p) :=
    Solver.all_after_of_clean (p := q) respects_stable (respects_entryStore r) rfl
      (fun _ => transfer_respects g) clean
  have record : ∀ n, q.solve.node n = (q.after k).record n := fun n => by rw [Result.node, nodes]; rfl
  have block : ∀ b, q.solve.block b = (q.after k).blocks.get b.index := fun b => by rw [Result.block, blocks]
  refine ⟨fun b => ?_, fun n => ?_⟩
  · show s.Respects p (q.solve.block b).input ∧ (q.solve.block b).exit.All (s.Respects p)
    rw [block]
    exact ⟨all.input b, all.exit b⟩
  · show (q.solve.node n).All (s.Respects p)
    rw [record]
    exact all.record n

omit body in
/-- In a converged run that reports no assignment, every store respects every declaration, or the input
of a loop head before it does not. If nothing is reported however early the run is stopped, every
store does. -/
theorem fields_respected (s : Scope) (limits : Limits) (r : Routine) (g : Flowgraph) (body : r.body = some g) :
    let result := g.analyze s.transfer (Routine.entryStore r) limits
    (result.stats.converged = true → (∀ d ∈ (s.check limits r).1, d.kind ≠ .mixing .assignment) → ∀ p,
        (∀ b, result.AllAt g b (s.Respects p) ∨
          ∃ h ∈ g.loopHeads, g.Leads h b ∧ ¬s.Respects p (result.block h).input) ∧
        ∀ n, (∀ b, n ∉ g.nodesOf b) → (result.node n).All (s.Respects p)) ∧
      ((∀ m ≤ limits.maxVisits, ∀ d ∈ (s.check { limits with maxVisits := m } r).1, d.kind ≠ .mixing .assignment) →
        ∀ p, result.All (s.Respects p)) := by
  intro result
  refine ⟨fun converged silent p => ?_, all_respect body⟩
  obtain ⟨canonical, entered⟩ := entryStore_spec r
  let q := g.problem s.transfer (Routine.entryStore r) limits.widenDelay.toNat limits.maxVisits.toNat
  obtain ⟨k, final⟩ := Solver.final_of_converged (p := q) rfl (s.transfer_local g) (s.transfer_keepsCanonical g)
    canonical converged
  have traced := Solver.after_traced (p := q) rfl (s.transfer_steady g) k
  refine ⟨final.allAt_or_head traced rfl entered respects_stable (transfer_respects g) (respects_entryStore r)
    (clean_of_check body silent), fun n unplaced => ?_⟩
  have empty : q.solve.node n = {} := by
    rw [final.result]
    exact final.shape.unrun n fun b hb => absurd hb (unplaced b)
  rw [show result.node n = {} from empty]
  exact ⟨respects_stable.unreachable, respects_stable.unreachable⟩

omit body

def plainField : Scope :=
  ⟨FieldTable.register .empty { name := "D", fields := [{ name := "f", type := .int }] }, "D"⟩

/-- Sets the field to itself, then to a literal over and over. -/
def resetLoop : Flowgraph where
  blocks := #[{ id := ⟨0⟩, role := .entry, nodes := [⟨0⟩, ⟨1⟩] }, { id := ⟨1⟩, nodes := [⟨2⟩, ⟨3⟩] }]
  nodes := #[{ id := ⟨0⟩, operation := .read (.field "D" "f") }, { id := ⟨1⟩, operation := .assign (.field "D" "f") ⟨0⟩ },
    { id := ⟨2⟩, operation := .literal (.int 0) }, { id := ⟨3⟩, operation := .assign (.field "D" "f") ⟨2⟩ }]
  edges := [⟨⟨0⟩, ⟨1⟩, .normal⟩, ⟨⟨1⟩, ⟨1⟩, .normal⟩]
  checked := by decide

def resetter : Routine := { name := "g", body := some resetLoop }

theorem resetLoop_silent : ∀ m : UInt64, m ≤ 2 → (plainField.check { maxVisits := m } resetter).1 = [] := by
  intro m hm
  have few : m.toNat ≤ 2 := UInt64.le_iff_toNat_le.mp hm
  have three : m = 0 ∨ m = 1 ∨ m = 2 := by
    simp only [← UInt64.toNat_inj]
    change m.toNat = 0 ∨ m.toNat = 1 ∨ m.toNat = 2
    omega
  rcases three with rfl | rfl | rfl <;> cbv

theorem fields_respected_resetLoop :
    let result := resetLoop.analyze plainField.transfer (Routine.entryStore resetter) { maxVisits := 2 }
    result.stats.converged = true ∧ resetter.body = some resetLoop ∧
      (∀ b, result.AllAt resetLoop b (plainField.Respects (.field "D" "f")) ∨
        ∃ h ∈ resetLoop.loopHeads, resetLoop.Leads h b ∧
          ¬plainField.Respects (.field "D" "f") (result.block h).input) ∧
      result.All (plainField.Respects (.field "D" "f")) := by
  intro result
  have converged : result.stats.converged = true := by cbv
  have silent : ∀ m : UInt64, m ≤ 2 → ∀ d ∈ (plainField.check { maxVisits := m } resetter).1,
      d.kind ≠ .mixing .assignment := fun m hm d hd => by
    rw [resetLoop_silent m hm] at hd
    cases hd
  obtain ⟨heads, all⟩ := fields_respected plainField { maxVisits := 2 } resetter resetLoop rfl
  exact ⟨converged, rfl, (heads converged (silent 2 (by decide)) _).1, all silent _⟩

/-- Sets the field to a literal, and then, as long as two parameters are equal, sets it to the first and
both of them to the literal. -/
def relearned : Flowgraph where
  blocks := #[{ id := ⟨0⟩, role := .entry, nodes := [⟨0⟩, ⟨1⟩] }, { id := ⟨1⟩, nodes := [⟨2⟩, ⟨3⟩, ⟨4⟩] },
    { id := ⟨2⟩, nodes := [⟨5⟩, ⟨6⟩, ⟨7⟩, ⟨8⟩] }, { id := ⟨3⟩, role := .exit }]
  nodes := #[{ id := ⟨0⟩, operation := .literal (.int 0) }, { id := ⟨1⟩, operation := .assign (.field "D" "f") ⟨0⟩ },
    { id := ⟨2⟩, operation := .read (.local "x") }, { id := ⟨3⟩, operation := .read (.local "y") },
    { id := ⟨4⟩, operation := .binary .eq ⟨2⟩ ⟨3⟩ }, { id := ⟨5⟩, operation := .read (.local "x") },
    { id := ⟨6⟩, operation := .assign (.field "D" "f") ⟨5⟩ }, { id := ⟨7⟩, operation := .assign (.local "x") ⟨0⟩ },
    { id := ⟨8⟩, operation := .assign (.local "y") ⟨0⟩ }]
  edges := [⟨⟨0⟩, ⟨1⟩, .normal⟩, ⟨⟨1⟩, ⟨2⟩, .whenTrue⟩, ⟨⟨1⟩, ⟨3⟩, .whenFalse⟩, ⟨⟨2⟩, ⟨1⟩, .normal⟩]
  checked := by decide

def relearner : Routine :=
  { name := "g", parameters := [{ name := "x", type := .int }, { name := "y", type := .int, group := some "" }],
    body := some relearned }

/-- The first visits take `x` for a value of the group of `y` where they are equal, and the loop head
keeps what that lets into the field. At the end nothing is known of `y`, and nothing is reported. -/
theorem relearned_run :
    (fun run : Result TaggedValue Misuse =>
        (run.stats.converged, run.allFacts, (run.block ⟨1⟩).input.find? (.field "D" "f")))
      (relearned.analyze plainField.transfer (Routine.entryStore relearner) {}) =
      (true, [], some (.typed .int .top)) := by
  cbv

/-- A converged run may report nothing and know a field to hold what was not declared. -/
theorem unlike_declared :
    ¬∀ (s : Scope) (limits : Limits) (r : Routine) (g : Flowgraph), r.body = some g →
      (g.analyze s.transfer (Routine.entryStore r) limits).stats.converged = true →
      (∀ d ∈ (s.check limits r).1, d.kind ≠ .mixing .assignment) →
      ∀ p, (g.analyze s.transfer (Routine.entryStore r) limits).All (s.Respects p) := by
  intro respected
  obtain ⟨converged, rest⟩ := Prod.mk.inj relearned_run
  obtain ⟨facts, held⟩ := Prod.mk.inj rest
  have silent : (plainField.check {} relearner).1 = [] := by
    rw [check_eq rfl, misuseDiagnostics, facts]
    rfl
  have all := respected plainField {} relearner relearned rfl converged
    (fun d hd => by rw [silent] at hd; cases hd) (.field "D" "f")
  have declared : plainField.declared? (.field "D" "f") = some (.plain .int) := by cbv
  cases (all.1 ⟨1⟩).1 _ _ held declared

end Constants.Scope

end FlowCheck
