/-
  FlowCheck.Proofs.Verdicts — what a label is worth when the run was cut short.

  A label is the join of the effects of the nodes of the blocks its run reached. Those blocks are
  live, whatever the limits. If the run ended by itself they are all the live blocks, so no live
  node lacks what the label promises (`label_of_reached`); a cap of `n * (n + 1)` visits for `n`
  blocks is enough for that.

  A label does not say whether its run ended by itself. With a cap of one visit the assignment in
  `lateWrite` is never reached, and its routine is called pure (`label_optimistic`).
-/

import FlowCheck.Proofs.Effects

namespace FlowCheck.Purity

open Classical in
/-- The join of the effects of the nodes that are run when the blocks of `within` are. -/
noncomputable def Callees.effectOver (c : Callees) (g : Flowgraph) (within : BlockId → Prop) : Properties :=
  Domain.joinAll ((g.nodes.toList.filter fun node => ∃ b, within b ∧ g.RunsIn (g.nodesOf b) node.id).map
    fun node => c.effectOfOperation node.operation)

/-- No live node lacks a property that the label promises. -/
def Callees.Honest (c : Callees) (g : Flowgraph) (label : Label) : Prop :=
  ∀ n node, g.LiveNode n → g.node? n = some node →
    Domain.below (c.effectOfOperation node.operation) label.properties = true

variable {c : Callees} {g : Flowgraph}

/-- The effect of a body is that of the blocks its run reached. -/
theorem Sound.effectOf_eq {r : Result Properties Impurity} (sound : Sound c g r) :
    effectOf g r = c.effectOver g (r.reaches · = true) :=
  Purity.effectOf_eq sound.value

open Classical in
theorem below_effectOver {within : BlockId → Prop} {b : BlockId} {n : NodeId} {node : Node} (inside : within b)
    (runs : g.RunsIn (g.nodesOf b) n) (found : g.node? n = some node) :
    Domain.below (c.effectOfOperation node.operation) (c.effectOver g within) = true := by
  refine below_joinAll (List.mem_map.mpr ⟨node, List.mem_filter.mpr ⟨?_, ?_⟩, rfl⟩)
  · exact Array.mem_toList_iff.mpr (Array.mem_of_getElem? found)
  · have id : node.id = n := NodeId.index_inj.mp (Flowgraph.node_id found)
    rw [decide_eq_true_iff, id]
    exact ⟨b, inside, runs⟩

/-- A label that covers every live block is honest. -/
theorem honest_of_live {label : Label} (h : label.properties = c.effectOver g g.Live) : c.Honest g label := by
  intro n node live found
  obtain ⟨b, reached, runs⟩ := live
  rw [h]
  exact below_effectOver reached runs found

/-- Under any limits a label is the effect of the blocks its run reached, all of them live. It is
honest if the run ended by itself, which it does if the cap has room. -/
theorem label_of_reached (classifier : Classifier) (declaration : String) (r : Routine) (g : Flowgraph)
    (body : r.body = some g) :
    let result := classifier.callees.analyze classifier.limits g
    let label := (classifier.classify declaration r).1.1
    label.properties = classifier.callees.effectOver g (result.reaches · = true) ∧
      (∀ b, result.reaches b = true → g.Live b) ∧
      (result.stats.converged = true →
        label.properties = classifier.callees.effectOver g g.Live ∧ classifier.callees.Honest g label) ∧
      (g.blocks.size * (g.blocks.size + 1) ≤ classifier.limits.maxVisits.toNat → result.stats.converged = true) ∧
      (classifier.classify declaration r).2.report.find? declaration r.signature = some label := by
  intro result label
  have sound : Sound classifier.callees g result := analyze_sound classifier.callees classifier.limits g
  have judged : label = .ofProperties (effectOf g result) := by
    simp only [label, result, Classifier.classify, Classifier.judge, body]
  have reached : label.properties = classifier.callees.effectOver g (result.reaches · = true) := by
    rw [judged, Label.properties_ofProperties, sound.effectOf_eq]
  refine ⟨reached, sound.live, fun converged => ?_, converged_of_room classifier.callees, ?_⟩
  · have live : label.properties = classifier.callees.effectOver g g.Live := by
      rw [reached]
      congr 1
      funext b
      exact propext (reaches_of_converged converged b)
    exact ⟨live, honest_of_live live⟩
  · show (classifier.report.record declaration r.signature label).find? declaration r.signature = some label
    rw [Report.find?_record, if_pos ⟨rfl, rfl⟩]

/-! ## A run cut short -/

def lateWrite : Flowgraph where
  blocks := #[{ id := ⟨0⟩, role := .entry, nodes := [⟨0⟩] }, { id := ⟨1⟩, nodes := [⟨1⟩] }]
  nodes := #[{ id := ⟨0⟩, operation := .literal (.int 1) },
    { id := ⟨1⟩, operation := .assign (.field "this" "x") ⟨0⟩ }]
  edges := [⟨⟨0⟩, ⟨1⟩, .normal⟩]
  checked := by decide

def lateWriter : Routine := { name := "f", body := some lateWrite }

def hasty (maxVisits : UInt64) : Classifier := .start { maxVisits } ⟨.empty, .impure⟩

theorem lateWrite_live : lateWrite.LiveNode ⟨1⟩ := by
  have opens : lateWrite.Opens ⟨0⟩ .normal := by
    show ∀ n ∈ lateWrite.nodesOf ⟨0⟩, lateWrite.raisesAt n = false
    decide
  have edge : (⟨⟨0⟩, ⟨1⟩, .normal⟩ : Edge) ∈ lateWrite.edges := List.mem_singleton.mpr rfl
  exact ⟨⟨1⟩, .edge edge .entry opens, [], [], rfl, fun _ h => by cases h⟩

theorem label_of_reached_lateWrite :
    lateWriter.body = some lateWrite ∧
      (((hasty 1).classify "D" lateWriter).1.1.properties
        = (hasty 1).callees.effectOver lateWrite
          fun b => ((hasty 1).callees.analyze (hasty 1).limits lateWrite).reaches b = true) ∧
      (hasty 6).callees.Honest lateWrite ((hasty 6).classify "D" lateWriter).1.1 := by
  have room := (label_of_reached (hasty 6) "D" lateWriter lateWrite rfl).2.2.2.1 (by decide)
  exact ⟨rfl, (label_of_reached (hasty 1) "D" lateWriter lateWrite rfl).1,
    ((label_of_reached (hasty 6) "D" lateWriter lateWrite rfl).2.2.1 room).2⟩

/-- A label may promise what a live node lacks. -/
theorem label_optimistic :
    ¬∀ (classifier : Classifier) (declaration : String) (r : Routine) (g : Flowgraph), r.body = some g →
      classifier.callees.Honest g (classifier.classify declaration r).1.1 := by
  intro honest
  have write := honest (hasty 1) "D" lateWriter lateWrite rfl ⟨1⟩ _ lateWrite_live rfl
  have called : ((hasty 1).classify "D" lateWriter).1.1 = .pure := by cbv
  rw [called] at write
  cases write

end FlowCheck.Purity
