/-
  FlowCheck.Proofs.Misuses — the usage check reports what the final values show, and nothing else.

  Facts are recorded anew at every visit, from values that other blocks may still change. In a
  converged run the blocks with something to report are live, so something flows into them, and
  none of them is stale: the record of each of their nodes is the effect it has on the final values
  (`record_final`). Records of nodes that are not reached carry no facts.
-/

import FlowCheck.Proofs.Liveness

namespace FlowCheck

/-! ## Records and final values -/

section

variable {V F : Type} [Domain V] [DecidableEq V]

/-- In a replay, every record is the effect of its node on the store before it. -/
theorem Flowgraph.record_of_replayNodes {g : Flowgraph} {τ : Transfer V F} {look : NodeId → V}
    {records : NodeId → NodeRecord V F} {l : List NodeId} {out : Outflow V} {handlers : Store V}
    (h : (g.replayNodes τ look l out handlers).1 = l.map records) {n : NodeId} (hn : n ∈ l) :
    records n = .of (records n).before (g.effectAt τ look n (records n).before) := by
  induction l generalizing out handlers with
  | nil => cases hn
  | cons k l ih =>
    obtain ⟨head, tail⟩ := List.cons.inj h
    rcases List.mem_cons.mp hn with rfl | hn
    · rw [← head]; rfl
    · exact ih tail hn

namespace Solver

variable {p : Solver V F} {t : State V F} (final : p.Final t) (traced : p.Traced t)
  (entered : p.initial.isReachable = true)

include final traced

include entered in
/-- What is recorded of a node that is reached is its effect on the final values. -/
theorem Final.record_final {n : NodeId} (reached : (p.solve.node n).before.isReachable = true) :
    p.solve.node n = .of (p.solve.node n).before
      (p.plan.graph.effectAt p.transfer p.solve.valueOf n (p.solve.node n).before) := by
  obtain ⟨b, live, runs⟩ := (final.before_iff traced entered n).mp reached
  have replay := congrArg Prod.fst (final.solvedAt_live traced entered live).replay
  exact Flowgraph.record_of_replayNodes replay runs.mem

/-- Nothing is recorded of a node that is not reached. -/
theorem Final.record_unreached {n : NodeId} (unreached : (p.solve.node n).before.isReachable = false) :
    (p.solve.node n).facts = [] := by
  rw [final.result] at unreached ⊢
  rcases final.shape.record_cases n with ⟨b, hn, visited⟩ | empty
  · obtain ⟨look, record⟩ := traced.effect b visited n hn
    have none_ : (t.record n).before = .unreachable := Store.not_isReachable_iff.mp unreached
    rw [none_, Flowgraph.effectAt_unreachable] at record
    exact congrArg NodeRecord.facts record
  · exact congrArg NodeRecord.facts empty

end Solver

end

/-! ## The diagnostics of a routine -/

namespace Constants.Scope

variable (s : Scope)

/-- What is wrong with an operation on these values: the place where two groups meet, and the two
values as they are shown. -/
def violations (values : NodeId → TaggedValue) : Operation → List Misuse
  | .binary op lhs rhs =>
    if op = .concat || Domain.below (values lhs).qualifier (values rhs).qualifier
        || Domain.below (values rhs).qualifier (values lhs).qualifier then []
    else [⟨.binary, [(values lhs).display, (values rhs).display]⟩]
  | .caseTest scrutinee label =>
    if Domain.below (values label).qualifier (values scrutinee).qualifier then []
    else [⟨.switch, [(values label).display, (values scrutinee).display]⟩]
  | .assign (.field owner name) value =>
    match s.fields.find? (.field (if owner = "this" then s.current else owner) name) with
    | none => []
    | some declared =>
      if Domain.below (values value).qualifier declared.qualifier then []
      else [⟨.assignment, [(values value).display, declared.display]⟩]
  | _ => []

theorem transfer_facts (node : Node) (sit : Situation TaggedValue) :
    (s.transfer node sit).facts = s.violations sit.valueOf node.operation := by
  unfold transfer violations
  cases node.operation with
  | binary op lhs rhs => simp only [factUnless, Domain.comparable, Misuse.of, Bool.or_assoc]; rfl
  | assign target value =>
    cases target with
    | field owner name =>
      simp only [declared?, FieldTable.declared?]
      split <;> rename_i found <;> rw [found]
      rfl
    | _ => rfl
  | _ => rfl

/-- A converged check reports, node by node, what is wrong with the operations that are reached on
the final values; nodes placed in no block are not reached. -/
theorem check_exact (limits : Limits) (r : Routine) (g : Flowgraph) (body : r.body = some g)
    (converged : (g.analyze s.transfer (Routine.entryStore r) limits).stats.converged = true) :
    let result := g.analyze s.transfer (Routine.entryStore r) limits
    s.check limits r = (g.nodes.toList.flatMap fun node =>
        if (result.node node.id).before.isReachable then
          (s.violations result.valueOf node.operation).map fun m =>
            { location := node.location, kind := .mixing m.place, args := m.args,
              context := some (s.current ++ "." ++ r.signature) }
        else [], some result) ∧
      ∀ n, (∀ b, n ∉ g.nodesOf b) → (result.node n).before = .unreachable := by
  obtain ⟨canonical, entered⟩ := entryStore_spec r
  let p := g.problem s.transfer (Routine.entryStore r) limits.widenDelay.toNat limits.maxVisits.toNat
  obtain ⟨k, final⟩ := Solver.final_of_converged (p := p) rfl (s.transfer_local g) (s.transfer_keepsCanonical g)
    canonical converged
  have traced := Solver.after_traced (p := p) rfl (s.transfer_steady g) k
  have facts : ∀ node ∈ g.nodes.toList, (p.solve.node node.id).facts =
      if (p.solve.node node.id).before.isReachable then s.violations p.solve.valueOf node.operation else [] := by
    intro node hnode
    split
    · rename_i reached
      obtain ⟨known, before⟩ := Store.isReachable_iff.mp reached
      have effect : g.effectAt s.transfer p.solve.valueOf node.id (.known known) =
          s.transfer node ⟨g, .known known, p.solve.valueOf⟩ := by
        unfold Flowgraph.effectAt; simp only [Flowgraph.node?_id hnode]
      have record := final.record_final traced entered reached
      rw [before] at record
      exact (congrArg NodeRecord.facts (record.trans (congrArg _ effect))).trans (s.transfer_facts node _)
    · rename_i unreached
      exact final.record_unreached traced (Bool.eq_false_iff.mpr unreached)
  have size : p.solve.nodes.size = g.nodes.size := by rw [final.result]; exact final.shape.nodes
  refine ⟨?_, fun n unplaced => ?_⟩
  · simp only [check, analyze, body, Option.map_some, Routine.qualifiedName]
    refine Prod.ext ?_ rfl
    show misuseDiagnostics g _ p.solve = _
    rw [misuseDiagnostics, Result.allFacts, size, ← Flowgraph.nodes_index, List.flatMap_map, List.map_flatMap]
    refine List.flatMap_congr fun node hnode => ?_
    show ((p.solve.node node.id).facts.map _).map _ = _
    rw [facts node hnode, List.map_map]
    split
    · rename_i reached
      refine (List.map_congr_left fun m _ => ?_).trans (if_pos reached).symm
      simp [Flowgraph.node?_id hnode]
    · rename_i unreached
      exact (if_neg unreached).symm
  · refine Store.not_isReachable_iff.mp (Bool.eq_false_iff.mpr fun reached => ?_)
    obtain ⟨b, -, runs⟩ := (final.before_iff traced entered n).mp reached
    exact unplaced b runs.mem

/-- A loop that compares a literal with a parameter read only afterwards, and a node in no block. The
parameter is of a group with an empty name. -/
def mixedLoop : Flowgraph where
  blocks := #[{ id := ⟨0⟩, role := .entry, nodes := [⟨0⟩] }, { id := ⟨1⟩, nodes := [⟨2⟩, ⟨1⟩] }]
  nodes := #[{ id := ⟨0⟩, operation := .literal (.bool true) }, { id := ⟨1⟩, operation := .read (.local "p") },
    { id := ⟨2⟩, operation := .binary .lt ⟨0⟩ ⟨1⟩ }, { id := ⟨3⟩, operation := .binary .lt ⟨0⟩ ⟨1⟩ }]
  edges := [⟨⟨0⟩, ⟨1⟩, .normal⟩, ⟨⟨1⟩, ⟨1⟩, .normal⟩]
  checked := by decide

theorem check_exact_mixedLoop :
    let scope : Scope := ⟨.empty, "D"⟩
    let r : Routine := { name := "f", parameters := [{ name := "p", type := .bool, group := some "" }],
                         body := some mixedLoop }
    let result := mixedLoop.analyze scope.transfer (Routine.entryStore r) {}
    result.stats.converged = true ∧
      scope.check {} r = (mixedLoop.nodes.toList.flatMap fun node =>
        if (result.node node.id).before.isReachable then
          (scope.violations result.valueOf node.operation).map fun m =>
            { location := node.location, kind := .mixing m.place, args := m.args,
              context := some (scope.current ++ "." ++ r.signature) }
        else [], some result) := by
  intro scope r result
  have converged : result.stats.converged = true := by cbv
  exact ⟨converged, (check_exact scope {} r mixedLoop rfl converged).1⟩

end Constants.Scope

end FlowCheck
