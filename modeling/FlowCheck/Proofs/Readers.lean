/-
  FlowCheck.Proofs.Readers — whom a new value of a node concerns.

  The table of readers names a block under a node exactly if some node of the block has it as an
  operand and the block does not compute it before (`readers_exact`).

  The positions of all nodes stand in one table, but a use is served exactly if the operand stands
  earlier in the block of the use (`isServed_iff`). A block that uses an operand on both sides of its
  definition is noted for the uses before it, and a block that uses it often is noted once. The uses
  come in the order of their blocks, so the lists do too: they are what one gets by asking every
  block for its imports (`readerTable_eq`).
-/

import FlowCheck.Analysis.Solver
import FlowCheck.Proofs.WellFormed

namespace FlowCheck

namespace Flowgraph

/-- The blocks that import a node, in id order. -/
def readers (g : Flowgraph) (n : NodeId) : List BlockId := g.blockIds.filter (n ∈ g.imports ·)

variable {g : Flowgraph}

/-! ## Positions -/

theorem getElem?_nodesOf {b : BlockId} {i : Nat} {n : NodeId} :
    (g.nodesOf b)[i]? = some n ↔ ∃ B ∈ g.blocks.toList, B.id = b ∧ B.nodes[i]? = some n := by
  unfold nodesOf block?
  constructor
  · intro h
    cases hB : g.blocks[b.index]? with
    | none => simp [hB] at h
    | some B =>
      refine ⟨B, Array.mem_toList_iff.mpr (Array.mem_of_getElem? hB), ?_, by simpa [hB] using h⟩
      exact BlockId.index_inj.mp (block_id hB)
  · intro h
    obtain ⟨B, hB, rfl, hn⟩ := h
    obtain ⟨j, hj⟩ := List.getElem?_of_mem hB
    rw [Array.getElem?_toList] at hj
    rw [block_id hj, hj]
    exact hn

theorem mem_placed {n : NodeId} {i : Nat} : (n, i) ∈ g.placed ↔ ∃ b, (g.nodesOf b)[i]? = some n := by
  simp only [placed, List.mem_flatMap, List.mk_mem_zipIdx_iff_getElem?, getElem?_nodesOf]
  constructor
  · intro h
    obtain ⟨B, hB, hn⟩ := h
    exact ⟨B.id, B, hB, rfl, hn⟩
  · intro h
    obtain ⟨b, B, hB, -, hn⟩ := h
    exact ⟨B, hB, hn⟩

theorem nodup_placed (g : Flowgraph) : (g.placed.map (·.1)).Nodup := by
  have names : g.placed.map (·.1) = g.placements.map (·.2) := by
    rw [Draft.placements_nodes, placed, List.map_flatMap]
    exact congrArg (g.blocks.toList.flatMap ·) (funext fun B => List.zipIdx_map_fst 0 B.nodes)
  rw [names]
  exact g.passed.homes.once

theorem get_foldl_set_ne {l : List (NodeId × Nat)} {t : Slots Nat} {n : NodeId} (h : n ∉ l.map (·.1)) :
    (l.foldl (fun t x => t.set x.1.index x.2) t).get n.index = t.get n.index := by
  induction l generalizing t with
  | nil => rfl
  | cons x l ih =>
    rw [List.map_cons, List.mem_cons, not_or] at h
    rw [List.foldl_cons, ih h.2]
    exact Slots.get_set_ne t x.2 fun same => h.1 (NodeId.index_inj.mp same).symm

/-- Of entries with different nodes each is found in the table. -/
theorem get_foldl_set {l : List (NodeId × Nat)} {t : Slots Nat} (nodup : (l.map (·.1)).Nodup)
    (room : ∀ x ∈ l, x.1.index < t.size) {n : NodeId} {i : Nat} (h : (n, i) ∈ l) :
    (l.foldl (fun t x => t.set x.1.index x.2) t).get n.index = i := by
  induction l generalizing t with
  | nil => cases h
  | cons x l ih =>
    obtain ⟨new, nodup⟩ := List.nodup_cons.mp nodup
    rw [List.foldl_cons]
    rcases List.mem_cons.mp h with rfl | h
    · rw [get_foldl_set_ne new]
      exact Slots.get_set_same t i (room _ List.mem_cons_self)
    · apply ih nodup _ h
      intro y hy
      rw [Slots.size_set]
      exact room y (List.mem_cons_of_mem _ hy)

theorem get_positions {b : BlockId} {n : NodeId} {i : Nat} (h : (g.nodesOf b)[i]? = some n) :
    g.positions.get n.index = i := by
  apply get_foldl_set g.nodup_placed
  · intro x hx
    obtain ⟨c, hc⟩ := mem_placed.mp (show (x.1, x.2) ∈ g.placed from hx)
    obtain ⟨node, hnode, -⟩ := node_of_mem (List.mem_of_getElem? hc)
    show x.1.index < (Array.replicate g.nodes.size 0).size
    rw [Array.size_replicate]
    exact (Array.getElem?_eq_some_iff.mp hnode).1
  · exact mem_placed.mpr ⟨b, h⟩

/-- A use is served exactly if the operand stands at an earlier position of the block. -/
theorem isServed_iff {u : Use} :
    g.isServed g.positions u = true ↔ ∃ i < u.position, (g.nodesOf u.block)[i]? = some u.operand := by
  rw [isServed, Bool.and_eq_true, decide_eq_true_iff, decide_eq_true_iff, blockOf_eq_some_iff]
  constructor
  · intro h
    obtain ⟨own, earlier⟩ := h
    obtain ⟨i, hi⟩ := List.getElem?_of_mem own
    rw [get_positions hi] at earlier
    exact ⟨i, earlier, hi⟩
  · intro h
    obtain ⟨i, earlier, hi⟩ := h
    rw [get_positions hi]
    exact ⟨List.mem_of_getElem? hi, earlier⟩

/-! ## What the pass notes -/

theorem mem_uses {u : Use} :
    u ∈ g.uses ↔ ∃ m, (g.nodesOf u.block)[u.position]? = some m ∧ u.operand ∈ g.operandsOf m := by
  obtain ⟨b, i, n⟩ := u
  simp only [uses, List.mem_flatMap, List.mem_map, getElem?_nodesOf]
  constructor
  · intro h
    obtain ⟨B, hB, ⟨m, j⟩, hm, n', hn, e⟩ := h
    cases e
    exact ⟨m, ⟨B, hB, rfl, List.mk_mem_zipIdx_iff_getElem?.mp hm⟩, hn⟩
  · intro h
    obtain ⟨m, ⟨B, hB, rfl, hm⟩, hn⟩ := h
    exact ⟨B, hB, (m, i), List.mk_mem_zipIdx_iff_getElem?.mpr hm, n, hn, rfl⟩

theorem hasNode_of_operand {m n : NodeId} (h : n ∈ g.operandsOf m) : g.hasNode n = true := by
  unfold operandsOf node? at h
  cases hm : g.nodes[m.index]? with
  | none => simp [hm] at h
  | some node =>
    have used : n ∈ node.operation.operands := by simpa [hm] using h
    simpa [Draft.hasNode] using g.wellFormed.operands node (Array.mem_of_getElem? hm) n used

theorem size_noteUse (t : Slots (List BlockId)) (u : Use) : (g.noteUse g.positions t u).size = t.size := by
  unfold noteUse
  split
  · rfl
  · exact Slots.size_set t _ _

/-- The blocks noted under `i` after one more use. -/
theorem get_noteUse {t : Slots (List BlockId)} {u : Use} (room : u.operand.index < t.size) (i : Nat) :
    (g.noteUse g.positions t u).get i =
      if g.isServed g.positions u = false ∧ u.operand.index = i ∧ u.block ∉ t.get i then t.get i ++ [u.block] else t.get i := by
  unfold noteUse
  by_cases served : g.isServed g.positions u = true
  · simp [served]
  · simp only [served, Bool.false_eq_true, if_false, Slots.modify, Slots.get_set, room, and_true, true_and]
    by_cases here : u.operand.index = i
    · subst here
      by_cases listed : u.block ∈ t.get u.operand.index <;> simp [listed]
    · simp [here]

theorem mem_foldl_noteUse {l : List Use} {t : Slots (List BlockId)} (room : ∀ u ∈ l, u.operand.index < t.size)
    {i : Nat} {b : BlockId} :
    b ∈ (l.foldl (g.noteUse g.positions) t).get i ↔
      b ∈ t.get i ∨ ∃ u ∈ l, g.isServed g.positions u = false ∧ u.operand.index = i ∧ u.block = b := by
  induction l generalizing t with
  | nil => simp
  | cons u l ih =>
    have one : b ∈ (g.noteUse g.positions t u).get i ↔
        b ∈ t.get i ∨ g.isServed g.positions u = false ∧ u.operand.index = i ∧ u.block = b := by
      rw [get_noteUse (room u List.mem_cons_self)]
      split
      · rename_i note
        simp only [List.mem_append, List.mem_singleton, note.1, note.2.1, true_and, eq_comm]
      · rename_i skip
        constructor
        · exact .inl
        · rintro (h | ⟨unserved, here, rfl⟩)
          · exact h
          · by_contra new
            exact skip ⟨unserved, here, new⟩
    have rest : ∀ v ∈ l, v.operand.index < (g.noteUse g.positions t u).size := by
      intro v hv
      rw [size_noteUse]
      exact room v (List.mem_cons_of_mem _ hv)
    rw [List.foldl_cons, ih rest, one]
    simp only [List.exists_mem_cons_iff, or_assoc]

/-- Uses in the order of their blocks leave lists in the order of their blocks. -/
theorem ascending_foldl_noteUse {l : List Use} {t : Slots (List BlockId)} (room : ∀ u ∈ l, u.operand.index < t.size)
    (ordered : l.Pairwise fun u v => u.block.index ≤ v.block.index) {i : Nat}
    (ascending : (t.get i).Pairwise fun b c => b.index < c.index)
    (below : ∀ b ∈ t.get i, ∀ u ∈ l, b.index ≤ u.block.index) :
    ((l.foldl (g.noteUse g.positions) t).get i).Pairwise fun b c => b.index < c.index := by
  induction l generalizing t with
  | nil => exact ascending
  | cons u l ih =>
    obtain ⟨first, ordered⟩ := List.pairwise_cons.mp ordered
    have note := get_noteUse (g := g) (room u List.mem_cons_self) i
    rw [List.foldl_cons]
    refine ih ?_ ordered ?_ ?_
    · intro v hv
      rw [size_noteUse]
      exact room v (List.mem_cons_of_mem _ hv)
    · rw [note]
      split
      · rename_i new
        refine List.pairwise_append.mpr ⟨ascending, List.pairwise_singleton _ _, ?_⟩
        intro b hb c hc
        rw [List.mem_singleton.mp hc]
        have le := below b hb u List.mem_cons_self
        have ne : b.index ≠ u.block.index := fun same => new.2.2 (BlockId.index_inj.mp same ▸ hb)
        omega
      · exact ascending
    · intro b hb v hv
      rw [note] at hb
      split at hb
      · rcases List.mem_append.mp hb with hb | hb
        · exact below b hb v (List.mem_cons_of_mem _ hv)
        · rw [List.mem_singleton.mp hb]
          exact first v hv
      · exact below b hb v (List.mem_cons_of_mem _ hv)

theorem nodup_of_ascending {l : List BlockId} (h : l.Pairwise fun b c => b.index < c.index) : l.Nodup := by
  refine h.imp ?_
  rintro b _ lt rfl
  exact Nat.lt_irrefl _ lt

theorem blockIds_ascending (g : Flowgraph) : g.blockIds.Pairwise fun b c => b.index < c.index := by
  have positions := List.pairwise_lt_range (n := g.blocks.size)
  rw [← blockIds_index, List.pairwise_map] at positions
  exact positions

theorem uses_ordered (g : Flowgraph) : g.uses.Pairwise fun u v => u.block.index ≤ v.block.index := by
  have block : ∀ B : Block, ∀ u ∈ B.nodes.zipIdx.flatMap fun x => (g.operandsOf x.1).map fun m => (⟨B.id, x.2, m⟩ : Use),
      u.block = B.id := by
    intro B u hu
    obtain ⟨x, -, hu⟩ := List.mem_flatMap.mp hu
    obtain ⟨m, -, rfl⟩ := List.mem_map.mp hu
    rfl
  refine List.pairwise_flatMap.mpr ⟨fun B _ => ?_, ?_⟩
  · refine List.pairwise_of_forall_mem_list ?_
    intro u hu v hv
    exact Nat.le_of_eq (by rw [block B u hu, block B v hv])
  · have ascending := g.blockIds_ascending
    rw [blockIds, List.pairwise_map] at ascending
    refine ascending.imp ?_
    intro B C lt u hu v hv
    rw [block B u hu, block C v hv]
    exact Nat.le_of_lt lt

/-! ## The two tables are the same -/

/-- A block imports a node exactly if one of its uses of it is not served. -/
theorem mem_imports_iff {b : BlockId} {n : NodeId} :
    n ∈ g.imports b ↔ ∃ u ∈ g.uses, g.isServed g.positions u = false ∧ u.operand = n ∧ u.block = b := by
  rw [mem_imports]
  constructor
  · intro h
    obtain ⟨earlier, m, later, split, operand, fresh⟩ := h
    have at_ : (g.nodesOf b)[earlier.length]? = some m := by rw [split]; simp
    refine ⟨⟨b, earlier.length, n⟩, mem_uses.mpr ⟨m, at_, operand⟩, ?_, rfl, rfl⟩
    rw [← Bool.not_eq_true, isServed_iff]
    intro h
    obtain ⟨i, before, hi⟩ := h
    apply fresh
    rw [split, List.getElem?_append_left before] at hi
    exact List.mem_of_getElem? hi
  · intro h
    obtain ⟨⟨b, i, n⟩, used, unserved, rfl, rfl⟩ := h
    obtain ⟨m, hm, operand⟩ := mem_uses.mp used
    obtain ⟨lt, rfl⟩ := List.getElem?_eq_some_iff.mp hm
    refine ⟨(g.nodesOf b).take i, _, (g.nodesOf b).drop (i + 1), ?_, operand, ?_⟩
    · rw [List.getElem_cons_drop, List.take_append_drop]
    · intro before
      rw [← Bool.not_eq_true, isServed_iff] at unserved
      obtain ⟨j, hj⟩ := List.getElem?_of_mem before
      rw [List.getElem?_take] at hj
      split at hj
      · rename_i earlier
        exact unserved ⟨j, earlier, hj⟩
      · cases hj

theorem readers_ascending (n : NodeId) : (g.readers n).Pairwise fun b c => b.index < c.index :=
  g.blockIds_ascending.filter _

theorem mem_readers_iff {n : NodeId} {b : BlockId} : b ∈ g.readers n ↔ n ∈ g.imports b := by
  rw [readers, List.mem_filter, decide_eq_true_iff, mem_blockIds]
  constructor
  · exact And.right
  · intro imported
    exact ⟨hasBlock_of_imports imported, imported⟩

theorem readerTable_eq (g : Flowgraph) (n : NodeId) : g.readerTable.get n.index = g.readers n := by
  have room : ∀ u ∈ g.uses, u.operand.index < (Slots.filled g.nodes.size ([] : List BlockId)).size := by
    intro u hu
    obtain ⟨m, -, operand⟩ := mem_uses.mp hu
    show u.operand.index < (Array.replicate g.nodes.size []).size
    rw [Array.size_replicate]
    simpa [Draft.hasNode] using hasNode_of_operand operand
  have same : ∀ b, b ∈ g.readerTable.get n.index ↔ b ∈ g.readers n := by
    intro b
    rw [readerTable, mem_foldl_noteUse room, mem_readers_iff, mem_imports_iff]
    simp [NodeId.index_inj]
  have ascending : (g.readerTable.get n.index).Pairwise fun b c => b.index < c.index := by
    apply ascending_foldl_noteUse room g.uses_ordered
    · simp
    · simp
  refine List.Perm.eq_of_pairwise ?_ ascending (readers_ascending n)
    ((List.perm_ext_iff_of_nodup (nodup_of_ascending ascending) (nodup_of_ascending (readers_ascending n))).mpr same)
  intro b c _ _ lt gt
  omega

theorem mem_readerTable {n : NodeId} {b : BlockId} : b ∈ g.readerTable.get n.index ↔ n ∈ g.imports b := by
  rw [readerTable_eq, mem_readers_iff]

/-! ## Readers -/

/-- The elements that `n` does not stand before are those up to `n`. -/
theorem exists_split_iff {earlier later : List NodeId} {n : NodeId} (fresh : n ∉ earlier) {P : NodeId → Prop} :
    (∃ before m after, earlier ++ n :: later = before ++ m :: after ∧ P m ∧ n ∉ before) ↔
      ∃ m ∈ earlier ++ [n], P m := by
  constructor
  · intro h
    obtain ⟨before, m, after, split, hm, absent⟩ := h
    refine ⟨m, ?_, hm⟩
    rcases List.append_eq_append_iff.mp split with ⟨between, rfl, rest⟩ | ⟨between, rfl, rest⟩
    · cases between with
      | nil =>
        obtain ⟨rfl, -⟩ := List.cons.inj rest
        simp
      | cons k between =>
        obtain ⟨rfl, -⟩ := List.cons.inj rest
        simp at absent
    · cases between with
      | nil =>
        obtain ⟨rfl, -⟩ := List.cons.inj rest
        simp
      | cons k between =>
        obtain ⟨rfl, -⟩ := List.cons.inj rest
        simp
  · intro h
    obtain ⟨m, up, hm⟩ := h
    rcases List.mem_append.mp up with inside | last
    · obtain ⟨before, between, rfl⟩ := List.append_of_mem inside
      refine ⟨before, m, between ++ n :: later, by simp, hm, ?_⟩
      intro h
      exact fresh (List.mem_append_left _ h)
    · obtain rfl := List.mem_singleton.mp last
      exact ⟨earlier, m, later, rfl, hm, fresh⟩

/-- A block is listed under a node exactly if some node of the block has it as an operand and the block
does not place it before, and it is listed once. So a block that does not place the node at all is listed
if it uses it anywhere, and the block that does, if it uses it there or before. -/
theorem readers_exact (g : Flowgraph) (n : NodeId) :
    let listed := (Plan.of g).readers.get n.index
    (∀ b, b ∈ listed ↔
        ∃ earlier m later, g.nodesOf b = earlier ++ m :: later ∧ n ∈ g.operandsOf m ∧ n ∉ earlier) ∧
      listed.Nodup ∧
      (∀ b, n ∉ g.nodesOf b → (b ∈ listed ↔ ∃ m ∈ g.nodesOf b, n ∈ g.operandsOf m)) ∧
      (∀ b earlier later, g.nodesOf b = earlier ++ n :: later →
        (b ∈ listed ↔ ∃ m ∈ earlier ++ [n], n ∈ g.operandsOf m)) ∧
      listed = g.readers n := by
  intro listed
  have found : listed = g.readers n := g.readerTable_eq n
  have reads : ∀ b, b ∈ listed ↔
      ∃ earlier m later, g.nodesOf b = earlier ++ m :: later ∧ n ∈ g.operandsOf m ∧ n ∉ earlier := by
    intro b
    rw [found, mem_readers_iff, mem_imports]
  refine ⟨reads, ?_, ?_, ?_, found⟩
  · rw [found]
    exact nodup_of_ascending (readers_ascending n)
  · intro b away
    rw [reads]
    constructor
    · intro h
      obtain ⟨earlier, m, later, split, operand, -⟩ := h
      exact ⟨m, by simp [split], operand⟩
    · intro h
      obtain ⟨m, hm, operand⟩ := h
      obtain ⟨earlier, later, split⟩ := List.append_of_mem hm
      refine ⟨earlier, m, later, split, operand, fun before => away ?_⟩
      rw [split]
      exact List.mem_append_left _ before
  · intro b earlier later split
    have fresh : n ∉ earlier := fun h => by
      have nodup := g.nodup_nodesOf b
      rw [split, List.nodup_append] at nodup
      exact nodup.2.2 n h n List.mem_cons_self rfl
    rw [reads, split]
    exact exists_split_iff fresh

end Flowgraph

/-- The first node of the entry adds itself to the third, the second negates the first, the third a node
of no block. Another block adds the second to itself. -/
def lateReads : Flowgraph where
  blocks := #[{ id := ⟨0⟩, role := .entry, nodes := [⟨0⟩, ⟨1⟩, ⟨2⟩] }, { id := ⟨1⟩, nodes := [⟨4⟩] }]
  nodes := #[{ id := ⟨0⟩, operation := .binary .add ⟨0⟩ ⟨2⟩ }, { id := ⟨1⟩, operation := .unary .neg ⟨0⟩ },
    { id := ⟨2⟩, operation := .unary .neg ⟨3⟩ }, { id := ⟨3⟩, operation := .literal (.int 1) },
    { id := ⟨4⟩, operation := .binary .add ⟨1⟩ ⟨1⟩ }]
  edges := [⟨⟨0⟩, ⟨1⟩, .normal⟩]
  checked := by decide

example :
    (List.range 5).map lateReads.positions.get = [0, 1, 2, 0, 0] ∧
      (List.range 5).map (Plan.of lateReads).readers.get = [[⟨0⟩], [⟨1⟩], [⟨0⟩], [⟨0⟩], []] := by
  cbv

end FlowCheck
