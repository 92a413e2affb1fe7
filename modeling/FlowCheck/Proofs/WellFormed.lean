/-
  FlowCheck.Proofs.WellFormed — the check of a draft accepts the well-formed drafts and no others.

  `Draft.WellFormed` says what makes a draft a graph, and `Draft.Violates` what each defect reports;
  neither mentions the check or the order in which it looks. A well-formed draft violates nothing
  (`WellFormed.not_violates`), what the check stops at is violated (`violates_of_check`), and a draft
  it comes to the end of is well-formed (`Flowgraph.wellFormed`). So `ofDraft_decides`: a draft is
  accepted if and only if it is well-formed, and a refusal names something that is really wrong.

  Of an accepted draft the tables filled on the way hold the edges around every block, in the order
  they were declared, and the block that lists a node.
-/

import FlowCheck.Proofs.Graphs
import Mathlib.Data.List.Nodup

namespace FlowCheck

namespace Draft

variable (d : Draft)

def HasEdge (b : BlockId) (k : EdgeKind) : Prop := ∃ e ∈ d.edges, e.source = b ∧ e.kind = k

/-- The block has a last node, and one can branch on it. -/
def CanBranch (B : Block) : Prop :=
  ∃ n node, B.nodes.getLast? = some n ∧ d.nodes[n.index]? = some node ∧ node.operation.isConditional = true

structure WellFormed : Prop where
  nonempty : d.blocks ≠ #[]
  blockLabels : ∀ i (B : Block), d.blocks[i]? = some B → B.id.index = i
  nodeLabels : ∀ i (node : Node), d.nodes[i]? = some node → node.id.index = i
  entry : d.entry.index < d.blocks.size
  listed : ∀ B ∈ d.blocks, ∀ n ∈ B.nodes, n.index < d.nodes.size
  /-- No node is listed twice, in two blocks or in one. -/
  once : (d.blocks.toList.flatMap (·.nodes)).Nodup
  operands : ∀ node ∈ d.nodes, ∀ o ∈ node.operation.operands, o.index < d.nodes.size
  ends : ∀ e ∈ d.edges, e.source.index < d.blocks.size ∧ e.target.index < d.blocks.size
  distinct : d.edges.Nodup
  paired : ∀ B ∈ d.blocks, d.HasEdge B.id .whenTrue ↔ d.HasEdge B.id .whenFalse
  unmixed : ∀ B ∈ d.blocks, d.HasEdge B.id .whenTrue → ¬d.HasEdge B.id .normal
  decided : ∀ B ∈ d.blocks, d.HasEdge B.id .whenTrue → d.CanBranch B

def Violates : Defect → Prop
  | .empty => d.blocks = #[]
  | .missingEntry b => b = d.entry ∧ d.blocks.size ≤ b.index
  | .blockMislabelled i b => ∃ B, d.blocks[i]? = some B ∧ B.id = b ∧ b.index ≠ i
  | .nodeMislabelled i n => ∃ node, d.nodes[i]? = some node ∧ node.id = n ∧ n.index ≠ i
  | .unknownBlock b => (∃ e ∈ d.edges, e.source = b ∨ e.target = b) ∧ d.blocks.size ≤ b.index
  | .unknownNode b n => (∃ B ∈ d.blocks, B.id = b ∧ n ∈ B.nodes) ∧ d.nodes.size ≤ n.index
  | .nodePlacedTwice n first second => [(first, n), (second, n)].Sublist d.placements
  | .unknownOperand n o => (∃ node ∈ d.nodes, node.id = n ∧ o ∈ node.operation.operands) ∧ d.nodes.size ≤ o.index
  | .loneBranch b => (∃ B ∈ d.blocks, B.id = b) ∧ ¬(d.HasEdge b .whenTrue ↔ d.HasEdge b .whenFalse)
  | .mixedSuccessors b => (∃ B ∈ d.blocks, B.id = b) ∧ d.HasEdge b .whenTrue ∧ d.HasEdge b .normal
  | .notACondition b => d.HasEdge b .whenTrue ∧ ∃ B ∈ d.blocks, B.id = b ∧ ¬d.CanBranch B
  | .repeatedEdge e => [e, e].Sublist d.edges

variable {d}

theorem mem_placements {b : BlockId} {n : NodeId} :
    (b, n) ∈ d.placements ↔ ∃ B ∈ d.blocks, B.id = b ∧ n ∈ B.nodes := by
  simp [placements, Array.mem_toList_iff, and_comm]

theorem mem_operandUses {n o : NodeId} :
    (n, o) ∈ d.operandUses ↔ ∃ node ∈ d.nodes, node.id = n ∧ o ∈ node.operation.operands := by
  simp [operandUses, Array.mem_toList_iff, and_comm]

theorem placements_nodes : d.placements.map (·.2) = d.blocks.toList.flatMap (·.nodes) := by
  simp [placements, List.map_flatMap, Function.comp_def]

/-- The table of outgoing edges knows the kinds of the edges that leave a block. -/
theorem Linked.leaves_iff {t : Links} (h : Linked d t d.edges.zipIdx) {b : BlockId} {k : EdgeKind} :
    ((d.edgesAt (t.outgoing.get b.index)).map (·.kind)).contains k = true ↔ d.HasEdge b k := by
  rw [h.outgoing, edgesAt_positions d Edge.source]
  simp [HasEdge, and_assoc]

theorem endsInCondition_iff {B : Block} : d.endsInCondition B = true ↔ d.CanBranch B := by
  unfold endsInCondition CanBranch
  cases B.nodes.getLast? with
  | none => simp
  | some n =>
    cases h : d.nodes[n.index]? with
    | none => simp [h]
    | some node => simp [h]

/-! ## A well-formed draft violates nothing -/

theorem WellFormed.not_violates (h : d.WellFormed) (e : Defect) : ¬d.Violates e := by
  intro violated
  cases e with
  | empty => exact h.nonempty violated
  | missingEntry b =>
    obtain ⟨rfl, out⟩ := violated
    exact Nat.not_lt.mpr out h.entry
  | blockMislabelled i b =>
    obtain ⟨B, hB, rfl, wrong⟩ := violated
    exact wrong (h.blockLabels i B hB)
  | nodeMislabelled i n =>
    obtain ⟨node, hn, rfl, wrong⟩ := violated
    exact wrong (h.nodeLabels i node hn)
  | unknownBlock b =>
    obtain ⟨⟨e, he, rfl | rfl⟩, out⟩ := violated
    · exact Nat.not_lt.mpr out (h.ends e he).1
    · exact Nat.not_lt.mpr out (h.ends e he).2
  | unknownNode b n =>
    obtain ⟨⟨B, hB, -, hn⟩, out⟩ := violated
    exact Nat.not_lt.mpr out (h.listed B hB n hn)
  | nodePlacedTwice n first second =>
    have twice := violated.map (·.2)
    rw [placements_nodes] at twice
    exact List.nodup_iff_sublist.mp h.once n twice
  | unknownOperand n o =>
    obtain ⟨⟨node, hnode, -, ho⟩, out⟩ := violated
    exact Nat.not_lt.mpr out (h.operands node hnode o ho)
  | loneBranch b =>
    obtain ⟨⟨B, hB, rfl⟩, lone⟩ := violated
    exact lone (h.paired B hB)
  | mixedSuccessors b =>
    obtain ⟨⟨B, hB, rfl⟩, branches, normal⟩ := violated
    exact h.unmixed B hB branches normal
  | notACondition b =>
    obtain ⟨branches, B, hB, rfl, undecided⟩ := violated
    exact undecided (h.decided B hB branches)
  | repeatedEdge e => exact List.nodup_iff_sublist.mp h.distinct e violated

/-! ## A defect is a violation -/

/-- What the checks of labels find is out of place. -/
theorem exists_mislabelled {α : Type} {l : List α} (label : α → Nat) (fault : α → Nat → Defect) {e : Defect}
    (h : (l.zipIdx.findSome? fun (a, i) => if label a = i then none else some (fault a i)) = some e) :
    ∃ i a, l[i]? = some a ∧ label a ≠ i ∧ fault a i = e := by
  obtain ⟨⟨a, i⟩, hmem, he⟩ := List.exists_of_findSome?_eq_some h
  simp only [ite_eq_iff, reduceCtorEq, and_false, false_or, Option.some.injEq] at he
  exact ⟨i, a, List.mk_mem_zipIdx_iff_getElem?.mp hmem, he⟩

theorem Misplaced.violates {before after : List (BlockId × NodeId)} {x : BlockId × NodeId} {e : Defect}
    (h : Misplaced d before x e) (split : d.placements = before ++ x :: after) : d.Violates e := by
  cases h with
  | unknown out =>
    refine ⟨mem_placements.mp ?_, by simpa [hasNode] using out⟩
    rw [split]
    exact List.mem_append_right _ List.mem_cons_self
  | again first listed =>
    have here : [(x.1, x.2)].Sublist (x :: after) := List.singleton_sublist.mpr List.mem_cons_self
    show [(first, x.2), (x.1, x.2)].Sublist d.placements
    rw [split]
    exact (List.singleton_sublist.mpr listed).append here

theorem Mislinked.violates {before after : List (Edge × Nat)} {x : Edge × Nat} {e : Defect} (h : Mislinked d before x e)
    (split : d.edges.zipIdx = before ++ x :: after) : d.Violates e := by
  have edges : d.edges = before.map (·.1) ++ x.1 :: after.map (·.1) := by
    rw [← List.map_cons, ← List.map_append, ← split, List.zipIdx_map_fst]
  have declared : x.1 ∈ d.edges := by
    rw [edges]
    exact List.mem_append_right _ List.mem_cons_self
  cases h with
  | source out => exact ⟨⟨x.1, declared, .inl rfl⟩, by simpa [hasBlock] using out⟩
  | target out => exact ⟨⟨x.1, declared, .inr rfl⟩, by simpa [hasBlock] using out⟩
  | again earlier =>
    have here : [x.1].Sublist (x.1 :: after.map (·.1)) := List.singleton_sublist.mpr List.mem_cons_self
    show [x.1, x.1].Sublist d.edges
    rw [edges]
    exact (List.singleton_sublist.mpr earlier).append here

theorem violates_of_branchDefect {t : Links} (linked : Linked d t d.edges.zipIdx) {B : Block} (hB : B ∈ d.blocks)
    {e : Defect} (h : d.branchDefect? t.outgoing B = some e) : d.Violates e := by
  simp only [branchDefect?] at h
  split at h
  · rename_i lone
    cases h
    refine ⟨⟨B, hB, rfl⟩, ?_⟩
    rw [← linked.leaves_iff, ← linked.leaves_iff, ← Bool.eq_iff_iff]
    simpa using lone
  split at h
  · rename_i mixed
    cases h
    obtain ⟨branches, normal⟩ := Bool.and_eq_true_iff.mp mixed
    exact ⟨⟨B, hB, rfl⟩, linked.leaves_iff.mp branches, linked.leaves_iff.mp normal⟩
  split at h
  · rename_i undecided
    cases h
    obtain ⟨branches, undecided⟩ := Bool.and_eq_true_iff.mp undecided
    refine ⟨linked.leaves_iff.mp branches, B, hB, rfl, ?_⟩
    rw [← endsInCondition_iff]
    simpa using undecided
  · cases h

theorem violates_of_check {e : Defect} (h : d.check = .error e) : d.Violates e := by
  simp only [check, bind_eq_error_iff, refuse_eq_ok_iff, refuse_eq_error_iff, pure, Except.pure, reduceCtorEq,
    and_false, exists_false, or_false] at h
  rcases h with h | ⟨-, -, h | ⟨-, -, h | ⟨-, -, h | ⟨-, -, h | ⟨-, -, h | ⟨-, -, h | ⟨links, linked, h⟩⟩⟩⟩⟩⟩⟩
  · split at h
    · rename_i empty
      cases h
      exact Array.isEmpty_iff.mp empty
    · cases h
  · unfold blockLabelDefect? at h
    obtain ⟨i, B, hB, wrong, rfl⟩ := exists_mislabelled (fun B : Block => B.id.index)
      (fun B i => .blockMislabelled i B.id) h
    exact ⟨B, by simpa using hB, rfl, wrong⟩
  · unfold nodeLabelDefect? at h
    obtain ⟨i, node, hnode, wrong, rfl⟩ := exists_mislabelled (fun node : Node => node.id.index)
      (fun node i => .nodeMislabelled i node.id) h
    exact ⟨node, by simpa using hnode, rfl, wrong⟩
  · split at h
    · cases h
    · rename_i missing
      cases h
      exact ⟨rfl, by simpa [hasBlock] using missing⟩
  · rcases d.homes_cases with ⟨_, ok, -⟩ | ⟨_, _, _, _, error, split, misplaced⟩
    · cases h.symm.trans ok
    · cases Except.error.inj (h.symm.trans error)
      exact misplaced.violates split
  · obtain ⟨⟨n, o⟩, used, unknown⟩ := List.exists_of_findSome?_eq_some h
    simp only [ite_eq_iff, reduceCtorEq, and_false, false_or, Option.some.injEq] at unknown
    obtain ⟨unknown, rfl⟩ := unknown
    exact ⟨mem_operandUses.mp used, by simpa [hasNode] using unknown⟩
  · rcases d.links_cases with ⟨_, ok, -⟩ | ⟨_, _, _, _, error, split, mislinked⟩
    · cases h.symm.trans ok
    · cases Except.error.inj (h.symm.trans error)
      exact mislinked.violates split
  · rcases d.links_cases with ⟨_, ok, all⟩ | ⟨_, _, _, _, error, -⟩
    · cases Except.ok.inj (linked.symm.trans ok)
      obtain ⟨B, hB, h⟩ := List.exists_of_findSome?_eq_some h
      exact violates_of_branchDefect all (Array.mem_toList_iff.mp hB) h
    · cases linked.symm.trans error

end Draft

/-! ## A draft without a defect is well-formed -/

namespace Flowgraph

variable (g : Flowgraph)

theorem branches_faultless {B : Block} (hB : B ∈ g.blocks) :
    (g.HasEdge B.id .whenTrue ↔ g.HasEdge B.id .whenFalse) ∧
      (g.HasEdge B.id .whenTrue → ¬g.HasEdge B.id .normal ∧ g.CanBranch B) := by
  obtain ⟨_, linked⟩ := g.passed.edges
  have h := g.passed.branches B hB
  simp only [Draft.branchDefect?] at h
  rw [← linked.leaves_iff, ← linked.leaves_iff, ← linked.leaves_iff, ← Draft.endsInCondition_iff]
  generalize (g.edgesAt (g.index.outgoing.get B.id.index)).map (·.kind) = kinds at h
  split at h
  · cases h
  rename_i paired
  split at h
  · cases h
  rename_i unmixed
  split at h
  · cases h
  rename_i decided
  have paired : kinds.contains .whenTrue = kinds.contains .whenFalse := by simpa using paired
  refine ⟨by rw [paired], fun branches => ?_⟩
  rw [branches, Bool.true_and] at unmixed decided
  exact ⟨unmixed, by simpa using decided⟩

theorem wellFormed : g.WellFormed where
  nonempty := g.passed.nonempty
  blockLabels _ _ := block_id
  nodeLabels _ _ := node_id
  entry := by simpa [Draft.hasBlock] using g.hasBlock_entry
  listed B hB n hn := by
    have known := g.passed.homes.known (B.id, n) (Draft.mem_placements.mpr ⟨B, hB, rfl, hn⟩)
    simpa [Draft.hasNode] using known
  once := by
    rw [← Draft.placements_nodes]
    exact g.passed.homes.once
  operands node hnode o ho := by
    have known := List.findSome?_eq_none_iff.mp g.passed.operands (node.id, o)
      (Draft.mem_operandUses.mpr ⟨node, hnode, rfl, ho⟩)
    simpa [Draft.hasNode] using known
  ends e he := by
    obtain ⟨source, target⟩ := ends_known he
    exact ⟨by simpa [Draft.hasBlock] using source, by simpa [Draft.hasBlock] using target⟩
  distinct := g.nodup_edges
  paired B hB := (g.branches_faultless hB).1
  unmixed B hB branches := ((g.branches_faultless hB).2 branches).1
  decided B hB branches := ((g.branches_faultless hB).2 branches).2

/-! ## Indices of an accepted draft -/

variable {g}

theorem mem_nodesOf_iff {b : BlockId} {n : NodeId} : n ∈ g.nodesOf b ↔ ∃ B ∈ g.blocks, B.id = b ∧ n ∈ B.nodes :=
  mem_nodesOf.trans Draft.mem_placements

/-- The check accepts a draft if and only if it is well-formed. An accepted draft is kept as it is,
and the tables filled on the way find its edges and listings as they were declared; of any other
draft a violation is named. -/
theorem ofDraft_decides (d : Draft) :
    ((∃ g, ofDraft d = .ok g) ↔ d.WellFormed) ∧
      match ofDraft d with
      | .ok g =>
        g.toDraft = d ∧
          (∀ b, g.successors b = d.edges.filter (·.source = b)) ∧
          (∀ b, g.predecessors b = d.edges.filter (·.target = b)) ∧
          ∀ n b, g.blockOf n = some b ↔ ∃ B ∈ d.blocks, B.id = b ∧ n ∈ B.nodes
      | .error e => d.Violates e := by
  cases h : ofDraft d with
  | ok g =>
    obtain rfl := ofDraft_eq_ok_iff.mp h
    exact ⟨⟨fun _ => g.wellFormed, fun _ => ⟨g, rfl⟩⟩, rfl, g.successors_eq, g.predecessors_eq,
      fun n b => blockOf_eq_some_iff.trans mem_nodesOf_iff⟩
  | error e =>
    have violated := Draft.violates_of_check (ofDraft_eq_error_iff.mp h)
    refine ⟨⟨fun accepted => ?_, fun wellFormed => absurd violated (wellFormed.not_violates e)⟩, violated⟩
    obtain ⟨g, ok⟩ := accepted
    cases ok

end Flowgraph

end FlowCheck
