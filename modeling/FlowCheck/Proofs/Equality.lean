/-
  FlowCheck.Proofs.Equality — what a block that ends with a test for equality lets out.

  What leaves a block along its branches is the effect of its last node on the store before that
  node and on values that the table still has for the nodes before it (`Closed`). So a test for
  equality lets out the store before it where the operands differ. Where they are equal, a place
  that an operand reads has the other operand's group if that is of one (`taught`).

  The rule looks at the place, not at what happened to it since it was read. `rebound` reads a
  parameter, assigns a literal to it and then compares what was read: the literal is taken for a
  value of the group (`learns_despite_assignment`).
-/

import FlowCheck.Proofs.Misuses

namespace FlowCheck

variable {V F : Type} [Domain V] [DecidableEq V]

/-! ## The last node of a block -/

namespace Flowgraph

variable {g : Flowgraph} {τ : Transfer V F}

/-- What leaves along the branches is the effect of the last node. -/
theorem exit_of_replayNodes {look : NodeId → V} {records : NodeId → NodeRecord V F} {earlier : List NodeId}
    {n : NodeId} {out : Outflow V} {handlers : Store V} {exit : BlockExit V}
    (h : g.replayNodes τ look (earlier ++ [n]) out handlers = ((earlier ++ [n]).map records, exit)) :
    exit.whenTrue = (g.effectAt τ look n (records n).before).outflow.whenTrue ∧
      exit.whenFalse = (g.effectAt τ look n (records n).before).outflow.whenFalse := by
  induction earlier generalizing out handlers with
  | nil =>
    obtain ⟨record, rfl⟩ := Prod.mk.inj h
    rw [← (List.cons.inj record).1]
    exact ⟨rfl, rfl⟩
  | cons k earlier ih =>
    obtain ⟨records, exits⟩ := Prod.mk.inj h
    exact ih (Prod.ext (List.cons.inj records).2 exits)

end Flowgraph

namespace Solver

variable {p : Solver V F} {s s' : State V F} {b : BlockId} {input : Store V}

/-- What leaves a block along its branches is the effect of its last node on values the table has. -/
def Closed (p : Solver V F) (s : State V F) : Prop :=
  ∀ b earlier n, p.plan.graph.nodesOf b = earlier ++ [n] → ∃ look : NodeId → V,
    (∀ m ∈ earlier, look m = tableValue s.nodes m) ∧
      (s.exit b).whenTrue = (p.plan.graph.effectAt p.transfer look n (s.record n).before).outflow.whenTrue ∧
      (s.exit b).whenFalse = (p.plan.graph.effectAt p.transfer look n (s.record n).before).outflow.whenFalse

omit [DecidableEq V] in
theorem SameAnswers.closed (same : SameAnswers s s') (h : p.Closed s) : p.Closed s' := by
  intro c earlier n last
  have exits : s'.exit c = s.exit c := by rw [State.exit, same.blocks]; rfl
  have record : s'.record n = s.record n := by rw [State.record, same.nodes]; rfl
  rw [same.nodes, exits, record]
  exact h c earlier n last

/-- A sweep lets out the effect of the last node on the values it has written before. -/
theorem closed_sweep {t : Slots (NodeRecord V F)} (size : t.size = p.plan.graph.nodes.size)
    {earlier : List NodeId} {n : NodeId} (last : p.plan.graph.nodesOf b = earlier ++ [n]) :
    ∃ look : NodeId → V, (∀ m ∈ earlier, look m = tableValue (p.sweep b input t ()).nodes m) ∧
      (p.sweep b input t ()).exit.whenTrue = (p.plan.graph.effectAt p.transfer look n
        ((p.sweep b input t ()).nodes.get n.index).before).outflow.whenTrue ∧
      (p.sweep b input t ()).exit.whenFalse = (p.plan.graph.effectAt p.transfer look n
        ((p.sweep b input t ()).nodes.get n.index).before).outflow.whenFalse := by
  have ready : Ready p.plan.graph (earlier ++ [n]) t := last ▸ ready_nodesOf size b
  let w := earlier.foldl p.sweepNode { memory := (), nodes := t, outflow := .same input }
  have whole : p.sweep b input t () = p.sweepNode w n := by rw [sweep, last, List.foldl_append]; rfl
  have fresh : n ∉ earlier := fun h => (List.nodup_append'.mp ready.nodup).2.2 h (List.mem_singleton.mpr rfl)
  have alone : Ready p.plan.graph [n] w.nodes :=
    ⟨List.nodup_singleton n, fun k hk => ready.exist k (List.mem_append_right _ hk), by rw [size_foldl]; exact size⟩
  obtain ⟨node, hn⟩ := alone.head_eq
  rw [whole, alone.get_head]
  refine ⟨tableValue w.nodes, fun m hm => ?_, ?_, ?_⟩
  · have apart : m ≠ n := fun e => fresh (e ▸ hm)
    rw [tableValue, tableValue, get_sweepNode_ne apart]
  · rw [sweepNode_eq hn]; rfl
  · rw [sweepNode_eq hn]; rfl

theorem closed_invariant : Invariant p p.Closed where
  start := fun c earlier n last => by
    refine ⟨tableValue p.start.nodes, fun _ _ => rfl, ?_, ?_⟩
    all_goals
      have record : (p.start.record n).before = .unreachable := by simp [State.record, start]
      have exits : p.start.exit c = {} := by simp [State.exit, start]
      rw [record, exits, Flowgraph.effectAt_unreachable]
      rfl
  idle _ h taken _ := taken.sameAnswers.closed h
  visit {s s' b input} shape h taken _ _ := by
    have before := taken.sameAnswers.closed h
    intro c earlier n last
    rw [exit_visit shape taken.placed, nodes_visit]
    by_cases e : c = b
    · subst e
      rw [if_pos rfl, State.record, nodes_visit]
      exact closed_sweep shape.nodes last
    · have own : ∀ m ∈ p.plan.graph.nodesOf c, m ∉ p.plan.graph.nodesOf b := fun m hc hb =>
        e (Flowgraph.block_unique hc hb)
      obtain ⟨look, values, exits⟩ := before c earlier n last
      rw [if_neg e, record_visit (own n (by simp [last]))]
      refine ⟨look, fun m hm => ?_, exits⟩
      rw [values m hm, tableValue, tableValue, sweep_frame (own m (by simp [last, hm]))]

/-- Nothing is visited unless the initial store is reachable. -/
theorem entered_invariant (hp : p.Planned) :
    Invariant p fun s => Shape p s ∧ ∀ b, s.visited b = true → p.initial.isReachable = true where
  start := ⟨p.start_shape, fun b hb => by simp [State.visited, start] at hb⟩
  idle _ h taken _ := ⟨taken.shape h.1, fun c hc => h.2 c (by rwa [← taken.sameAnswers.visited])⟩
  visit {s s' b input} shape h taken live _ := by
    refine ⟨visit_shape hp shape taken.placed live, fun c hc => ?_⟩
    rcases (visited_visit hp shape taken.placed c).mp hc with rfl | visited
    · rcases taken.input_cases h.1 with e | ⟨visited, -⟩
      · rw [e] at live
        rcases incoming_reachable_iff.mp live with ⟨-, entered⟩ | ⟨e, -, -, out⟩
        · exact entered
        · refine h.2 e.source ?_
          by_contra away
          rw [State.exit, h.1.unvisited _ (by simpa using away), BlockExit.along_empty] at out
          cases out
      · exact h.2 _ visited
    · exact h.2 c (by rwa [← taken.sameAnswers.visited])

end Solver

/-- Whatever the limits, the branches of a block carry the effect of its last node, and if the run
converged it is that on the final values. -/
theorem Flowgraph.exists_closing [LawfulDomain V] {g : Flowgraph} {τ : Transfer V F} {initial : Store V}
    (hlocal : τ.Local g) (hτ : τ.Keeps Store.Canonical g) (steady : τ.Steady g) (hi : initial.Canonical)
    (limits : Limits) {b : BlockId} {earlier : List NodeId} {n : NodeId} (last : g.nodesOf b = earlier ++ [n])
    (reached : ((g.analyze τ initial limits).node n).before.isReachable = true) :
    ∃ look : NodeId → V,
      (∀ m, (g.analyze τ initial limits).stats.converged = true ∨ m ∈ earlier →
        look m = (g.analyze τ initial limits).valueOf m) ∧
      ((g.analyze τ initial limits).block b).exit.whenTrue =
        (g.effectAt τ look n ((g.analyze τ initial limits).node n).before).outflow.whenTrue ∧
      ((g.analyze τ initial limits).block b).exit.whenFalse =
        (g.effectAt τ look n ((g.analyze τ initial limits).node n).before).outflow.whenFalse := by
  let p := g.problem τ initial limits.widenDelay.toNat limits.maxVisits.toNat
  have own : n ∈ g.nodesOf b := by simp [last]
  by_cases converged : (g.analyze τ initial limits).stats.converged = true
  · obtain ⟨k, final⟩ := Solver.final_of_converged (p := p) rfl hlocal hτ hi converged
    have traced := Solver.after_traced (p := p) rfl steady k
    have visited : (p.after k).visited b = true := by
      by_contra away
      have empty : (p.after k).record n = {} := final.shape.unrun n fun c hc => by
        rw [Flowgraph.block_unique hc own]; simpa using away
      have record : (g.analyze τ initial limits).node n = (p.after k).record n := by
        rw [show g.analyze τ initial limits = _ from final.result]; rfl
      rw [record, empty] at reached
      cases reached
    have entered : initial.isReachable = true := ((Solver.entered_invariant (p := p) rfl).after rfl k).2 b visited
    have replay := (final.solvedAt_live traced entered (traced.live b visited)).replay
    rw [Flowgraph.replay, show p.plan.graph.nodesOf b = _ from last] at replay
    exact ⟨_, fun _ _ => rfl, exit_of_replayNodes replay⟩
  · obtain ⟨k, blocks, nodes, -⟩ := Solver.solve_answers (p := p) rfl
    obtain ⟨look, values, exits⟩ := (Solver.closed_invariant (p := p)).after rfl k b earlier n last
    refine ⟨look, fun m hm => ?_, ?_⟩
    · rw [values m (hm.resolve_left converged), ← nodes]; rfl
    · have block : (g.analyze τ initial limits).block b = (p.after k).blocks.get b.index := by rw [← blocks]; rfl
      have record : (g.analyze τ initial limits).node n = (p.after k).record n := by
        rw [Solver.State.record, ← nodes]; rfl
      rw [block, record]
      exact exits

/-! ## Tests for equality -/

def Flowgraph.operation? (g : Flowgraph) (n : NodeId) : Option Operation := (g.node? n).map (·.operation)

def Flowgraph.Writes (g : Flowgraph) (n : NodeId) (x : String) : Prop :=
  (∃ value, g.operation? n = some (.assign (.local x) value)) ∨ ∃ raised, g.operation? n = some (.handler x raised)

def BinaryOp.equalEdge (op : BinaryOp) : EdgeKind := if op = .ne then .whenFalse else .whenTrue

def BinaryOp.unequalEdge (op : BinaryOp) : EdgeKind := if op = .ne then .whenTrue else .whenFalse

/-- A block whose last node, after those `earlier`, is a test whether what was read of a local equals
something that is not read of it. -/
structure Flowgraph.EndsInTest (g : Flowgraph) (b : BlockId) (earlier : List NodeId) (test : NodeId) (op : BinaryOp)
    (x : String) (read other : NodeId) : Prop where
  last : g.nodesOf b = earlier ++ [test]
  equality : op = .eq ∨ op = .ne
  operation : g.operation? test = some (.binary op read other) ∨ g.operation? test = some (.binary op other read)
  reads : g.operation? read = some (.read (.local x))
  apart : g.operation? other ≠ some (.read (.local x))

namespace Constants.Scope

/-- What a value is known to be where it equals `other`: it keeps its type, and has the group of
`other` if that is of one. -/
def taught (held other : TaggedValue) : TaggedValue :=
  match Tag.group? other.qualifier, held.type? with
  | none, _ => held
  | some _, some type => .typed type other.qualifier
  | some _, none => other

/-- A test teaches nothing if the other side is of no group, or of the same. -/
theorem taught_eq_iff {held other : TaggedValue} :
    taught held other = held ↔ Tag.group? other.qualifier = none ∨ held.qualifier = other.qualifier := by
  unfold taught
  cases group : Tag.group? other.qualifier with
  | none => simp
  | some name =>
    cases held with
    | typed type tag => simp [Qualified.type?, Qualified.qualifier, eq_comm]
    | never =>
      cases other with
      | never => cases group
      | typed type tag =>
        have tagged : Domain.bottom ≠ tag := fun e => by rw [← e] at group; cases group
        simpa [Qualified.type?, Qualified.qualifier] using tagged

variable (s : Scope) {g : Flowgraph}

theorem refinable?_eq_some_iff {n : NodeId} {q : Place} :
    refinable? g n = some q ↔ g.operation? n = some (.read q) ∧ q.isField = false := by
  unfold refinable? Flowgraph.operation?
  cases g.node? n with
  | none => simp
  | some node =>
    obtain ⟨id, operation, location⟩ := node
    cases operation with
    | read p => cases p <;> simp [Place.isField] <;> rintro rfl <;> rfl
    | _ => simp

theorem valueOf_learn (m : SortedMap Place TaggedValue) (n : NodeId) (other : TaggedValue) (q : Place) :
    (learn g (.known m) n other).valueOf q =
      if refinable? g n = some q then taught ((Store.known m).valueOf q) other else (Store.known m).valueOf q := by
  unfold learn taught
  cases Tag.group? other.qualifier with
  | none => simp
  | some name =>
    cases refinable? g n with
    | none => simp
    | some p =>
      simp only [Store.valueOf_set, Option.some.injEq]
      split
      · rename_i e
        rw [← e]
        cases ((Store.known m).valueOf p).type? <;> rfl
      · rfl

theorem valueOf_learn_learn (m : SortedMap Place TaggedValue) (lhs rhs : NodeId) (left right : TaggedValue) (q : Place) :
    (learn g (learn g (.known m) lhs right) rhs left).valueOf q =
      let held := if refinable? g lhs = some q then taught ((Store.known m).valueOf q) right else (Store.known m).valueOf q
      if refinable? g rhs = some q then taught held left else held := by
  have live : (learn g (.known m) lhs right).isReachable = true := learn_isReachable g _ _ _
  obtain ⟨first, e⟩ := Store.isReachable_iff.mp live
  rw [e, valueOf_learn, ← e, valueOf_learn]

/-- The stores a test for equality lets out. -/
theorem test_exits {op : BinaryOp} (equality : op = .eq ∨ op = .ne) {test lhs rhs : NodeId}
    (operation : g.operation? test = some (.binary op lhs rhs)) {m : SortedMap Place TaggedValue}
    {look : NodeId → TaggedValue} {exit : BlockExit TaggedValue}
    (exits : exit.whenTrue = (g.effectAt s.transfer look test (.known m)).outflow.whenTrue ∧
      exit.whenFalse = (g.effectAt s.transfer look test (.known m)).outflow.whenFalse) :
    exit.along op.unequalEdge = .known m ∧
      exit.along op.equalEdge = learn g (learn g (.known m) lhs (look rhs)) rhs (look lhs) := by
  obtain ⟨node, hn, op_⟩ := Option.map_eq_some_iff.mp operation
  have effect : (g.effectAt s.transfer look test (.known m)).outflow =
      binaryOutflow ⟨g, .known m, look⟩ op lhs rhs (look lhs) (look rhs) := by
    simp only [Flowgraph.effectAt, hn, transfer, op_]
  rw [effect] at exits
  rcases equality with rfl | rfl
  · exact ⟨exits.2, exits.1⟩
  · exact ⟨exits.1, exits.2⟩

/-- Read on the left or on the right, the local alone is taught the value of the other operand. -/
theorem endsInTest_exits {b : BlockId} {earlier : List NodeId} {test read other : NodeId} {op : BinaryOp} {x : String}
    (ends : g.EndsInTest b earlier test op x read other) {m : SortedMap Place TaggedValue}
    {look : NodeId → TaggedValue} {exit : BlockExit TaggedValue}
    (exits : exit.whenTrue = (g.effectAt s.transfer look test (.known m)).outflow.whenTrue ∧
      exit.whenFalse = (g.effectAt s.transfer look test (.known m)).outflow.whenFalse) :
    exit.along op.unequalEdge = .known m ∧
      (exit.along op.equalEdge).valueOf (.local x) = taught ((Store.known m).valueOf (.local x)) (look other) ∧
      ∀ q, q ≠ .local x → g.operation? other ≠ some (.read q) →
        (exit.along op.equalEdge).valueOf q = (Store.known m).valueOf q := by
  have own : refinable? g read = some (.local x) := refinable?_eq_some_iff.mpr ⟨ends.reads, rfl⟩
  have foreign : ∀ {q}, g.operation? other ≠ some (.read q) → refinable? g other ≠ some q := fun h e =>
    h (refinable?_eq_some_iff.mp e).1
  rcases ends.operation with operation | operation
  all_goals
    obtain ⟨unequal, equal⟩ := s.test_exits ends.equality operation exits
    refine ⟨unequal, ?_, fun q hq ho => ?_⟩
    · simp only [equal, valueOf_learn_learn, own, foreign ends.apart, if_true, if_false]
    · have apart : refinable? g read ≠ some q := fun e => hq (Option.some.inj (own.symm.trans e)).symm
      simp only [equal, valueOf_learn_learn, apart, foreign ho, if_false]

/-- Where the operands of a test for equality differ, the store is the one before the test. Where they
are equal, the local that was read has the group of the other operand, whatever was assigned to it
since, and no place changes but that local and what the other operand reads. -/
theorem equality_teaches {initial : Store TaggedValue} (canonical : initial.Canonical) (limits : Limits) {b : BlockId}
    {earlier : List NodeId} {test read other : NodeId} {op : BinaryOp} {x : String}
    (ends : g.EndsInTest b earlier test op x read other)
    (reached : ((g.analyze s.transfer initial limits).node test).before.isReachable = true) :
    let r := g.analyze s.transfer initial limits
    let before := (r.node test).before
    let exit := (r.block b).exit
    exit.along op.unequalEdge = before ∧
      ∃ v, (r.stats.converged = true ∨ other ∈ earlier → v = r.valueOf other) ∧
        (exit.along op.equalEdge).valueOf (.local x) = taught (before.valueOf (.local x)) v ∧
        ((exit.along op.equalEdge).valueOf (.local x) = before.valueOf (.local x) ↔
          Tag.group? v.qualifier = none ∨ (before.valueOf (.local x)).qualifier = v.qualifier) ∧
        ∀ q, q ≠ .local x → g.operation? other ≠ some (.read q) →
          (exit.along op.equalEdge).valueOf q = before.valueOf q := by
  intro r before exit
  obtain ⟨look, values, exits⟩ := Flowgraph.exists_closing (s.transfer_local g) (s.transfer_keepsCanonical g)
    (s.transfer_steady g) canonical limits ends.last reached
  obtain ⟨m, known⟩ := Store.isReachable_iff.mp reached
  rw [known] at exits
  rw [show before = .known m from known]
  obtain ⟨unequal, equal, frame⟩ := s.endsInTest_exits ends exits
  refine ⟨unequal, look other, values other, equal, ?_, frame⟩
  rw [equal, taught_eq_iff]

/-- Reads the parameters `x` and `y`, sets `x` to a literal, and compares what was read. -/
def rebound : Flowgraph where
  blocks := #[{ id := ⟨0⟩, role := .entry, nodes := [⟨0⟩, ⟨1⟩, ⟨2⟩, ⟨3⟩, ⟨4⟩] }, { id := ⟨1⟩ }, { id := ⟨2⟩ }]
  nodes := #[{ id := ⟨0⟩, operation := .read (.local "x") }, { id := ⟨1⟩, operation := .read (.local "y") },
    { id := ⟨2⟩, operation := .literal (.int 7) }, { id := ⟨3⟩, operation := .assign (.local "x") ⟨2⟩ },
    { id := ⟨4⟩, operation := .binary .eq ⟨0⟩ ⟨1⟩ }]
  edges := [⟨⟨0⟩, ⟨1⟩, .whenTrue⟩, ⟨⟨0⟩, ⟨2⟩, .whenFalse⟩]
  checked := by decide

def rebinder : Routine :=
  { name := "f", parameters := [{ name := "x", type := .int }, { name := "y", type := .int, group := some "" }],
    body := some rebound }

theorem rebound_endsInTest : rebound.EndsInTest ⟨0⟩ [⟨0⟩, ⟨1⟩, ⟨2⟩, ⟨3⟩] ⟨4⟩ .eq "x" ⟨0⟩ ⟨1⟩ where
  last := rfl
  equality := .inl rfl
  operation := .inl rfl
  reads := rfl
  apart := by decide

theorem rebound_reached : ∀ n ∈ rebound.nodesOf ⟨0⟩,
    ((rebound.analyze (transfer ⟨.empty, "D"⟩) (Routine.entryStore rebinder) {}).node n).before.isReachable = true := by
  refine List.all_eq_true.mp ?_
  cbv

theorem equality_teaches_rebound :
    let r := rebound.analyze (transfer ⟨.empty, "D"⟩) (Routine.entryStore rebinder) {}
    (Routine.entryStore rebinder).Canonical ∧ rebound.EndsInTest ⟨0⟩ [⟨0⟩, ⟨1⟩, ⟨2⟩, ⟨3⟩] ⟨4⟩ .eq "x" ⟨0⟩ ⟨1⟩ ∧
      (r.node ⟨4⟩).before.isReachable = true ∧
      ((r.block ⟨0⟩).exit.along .whenTrue).valueOf (.local "x") =
        taught ((r.node ⟨4⟩).before.valueOf (.local "x")) (r.valueOf ⟨1⟩) := by
  intro r
  have canonical := (entryStore_spec rebinder).1
  have reached := rebound_reached ⟨4⟩ (by decide)
  obtain ⟨-, v, value, taught, -⟩ := equality_teaches ⟨.empty, "D"⟩ canonical {} rebound_endsInTest reached
  rw [value (.inr (by decide))] at taught
  exact ⟨canonical, rebound_endsInTest, reached, taught⟩

/-- A test teaches a local although it was written after it was read. -/
theorem learns_despite_assignment :
    ¬∀ (s : Scope) (g : Flowgraph) (initial : Store TaggedValue) (limits : Limits) (b : BlockId)
      (before between after : List NodeId) (test read write other : NodeId) (op : BinaryOp) (x : String),
      initial.Canonical → g.EndsInTest b (before ++ read :: between ++ write :: after) test op x read other →
      g.Writes write x →
      (∀ n ∈ g.nodesOf b, ((g.analyze s.transfer initial limits).node n).before.isReachable = true) →
      ∀ k, k = .whenTrue ∨ k = .whenFalse →
        (((g.analyze s.transfer initial limits).block b).exit.along k).valueOf (.local x) =
          ((g.analyze s.transfer initial limits).node test).before.valueOf (.local x) := by
  intro unaffected
  have same := unaffected ⟨.empty, "D"⟩ rebound (Routine.entryStore rebinder) {} ⟨0⟩ [] [⟨1⟩, ⟨2⟩] [] ⟨4⟩ ⟨0⟩ ⟨3⟩ ⟨1⟩ .eq
    "x" (entryStore_spec rebinder).1 rebound_endsInTest (.inl ⟨⟨2⟩, rfl⟩) rebound_reached .whenTrue (.inl rfl)
  have held : ((rebound.analyze (transfer ⟨.empty, "D"⟩) (Routine.entryStore rebinder) {}).node ⟨4⟩).before.valueOf
      (.local "x") = .plain .int := by cbv
  have learned : (((rebound.analyze (transfer ⟨.empty, "D"⟩) (Routine.entryStore rebinder) {}).block ⟨0⟩).exit.along
      .whenTrue).valueOf (.local "x") = .typed .int (.value (.member "")) := by cbv
  rw [held, learned] at same
  cases same

end Constants.Scope

end FlowCheck
