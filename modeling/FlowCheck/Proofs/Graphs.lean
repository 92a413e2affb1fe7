/-
  FlowCheck.Proofs.Graphs — what the check of a graph guarantees.

  Every block and node is found under its id, edges and placements name existing blocks and nodes,
  and no node is placed twice: two blocks never share a node (`block_unique`), and a block never
  lists one twice (`nodup_nodesOf`). An operand of a node of a block is placed earlier in the block
  or is one of the block's imports.

  The passes that fill tables keep what is entered so far (`Draft.Homed`, `Draft.Linked`) or stop at
  the first entry that is wrong. So the finished tables have what the lists they were filled from
  have: `blockOf_eq_some_iff`, `successors_eq`, `predecessors_eq`.
-/

import FlowCheck.Analysis.Readers
import Mathlib.Data.List.Nodup

namespace FlowCheck

@[simp] theorem BlockId.ofIndex_index (b : BlockId) : BlockId.ofIndex b.index = b := by
  cases b; simp [index, ofIndex]

theorem BlockId.index_inj {b c : BlockId} : b.index = c.index ↔ b = c :=
  ⟨fun h => by rw [← b.ofIndex_index, h, c.ofIndex_index], congrArg _⟩

@[simp] theorem NodeId.ofIndex_index (n : NodeId) : NodeId.ofIndex n.index = n := by
  cases n; simp [index, ofIndex]

theorem NodeId.index_inj {n m : NodeId} : n.index = m.index ↔ n = m :=
  ⟨fun h => by rw [← n.ofIndex_index, h, m.ofIndex_index], congrArg _⟩

/-! ## Checks that fill tables -/

theorem bind_eq_ok_iff {ε α β : Type} {x : Except ε α} {f : α → Except ε β} {r : β} :
    x >>= f = .ok r ↔ ∃ a, x = .ok a ∧ f a = .ok r := by
  cases x <;> simp [bind, Except.bind]

theorem bind_eq_error_iff {ε α β : Type} {x : Except ε α} {f : α → Except ε β} {e : ε} :
    x >>= f = .error e ↔ x = .error e ∨ ∃ a, x = .ok a ∧ f a = .error e := by
  cases x <;> simp [bind, Except.bind]

/-- A pass over a list either comes to its end, with what its steps keep, or stops at an element. -/
theorem foldlM_cases {ε α β : Type} {step : β → α → Except ε β} {kept : β → List α → Prop}
    {fault : List α → α → ε → Prop}
    (one : ∀ t earlier x, kept t earlier →
      (∃ t', step t x = .ok t' ∧ kept t' (earlier ++ [x])) ∨ ∃ e, step t x = .error e ∧ fault earlier x e)
    {l earlier : List α} {t : β} (h : kept t earlier) :
    (∃ t', l.foldlM step t = .ok t' ∧ kept t' (earlier ++ l)) ∨
      ∃ e before x after, l.foldlM step t = .error e ∧ l = before ++ x :: after ∧ fault (earlier ++ before) x e := by
  induction l generalizing t earlier with
  | nil => exact .inl ⟨t, rfl, by rwa [List.append_nil]⟩
  | cons x l ih =>
    rw [List.foldlM_cons]
    rcases one t earlier x h with ⟨t', ok, h'⟩ | ⟨e, error, stopped⟩
    · rw [ok]
      rcases ih h' with ⟨u, done, all⟩ | ⟨e, before, y, after, error, split, stopped⟩
      · exact .inl ⟨u, done, by rwa [List.append_assoc] at all⟩
      · refine .inr ⟨e, x :: before, y, after, error, by rw [split]; rfl, ?_⟩
        rwa [List.append_assoc] at stopped
    · rw [error]
      exact .inr ⟨e, [], x, l, rfl, rfl, by rwa [List.append_nil]⟩

namespace Draft

variable {d : Draft}

theorem refuse_eq_ok_iff {o : Option Defect} {u : Unit} : refuse o = .ok u ↔ o = none := by
  cases o <;> simp [refuse]

theorem refuse_eq_error_iff {o : Option Defect} {e : Defect} : refuse o = .error e ↔ o = some e := by
  cases o <;> simp [refuse]

structure Homed (d : Draft) (homes : Slots (Option BlockId)) (l : List (BlockId × NodeId)) : Prop where
  size : homes.size = d.nodes.size
  known : ∀ x ∈ l, d.hasNode x.2 = true
  once : (l.map (·.2)).Nodup
  found : ∀ n b, homes.get n.index = some b ↔ (b, n) ∈ l

inductive Misplaced (d : Draft) (before : List (BlockId × NodeId)) (x : BlockId × NodeId) : Defect → Prop where
  | unknown (out : d.hasNode x.2 = false) : Misplaced d before x (.unknownNode x.1 x.2)
  | again (first : BlockId) (listed : (first, x.2) ∈ before) : Misplaced d before x (.nodePlacedTwice x.2 first x.1)

theorem place_cases (homes : Slots (Option BlockId)) (l : List (BlockId × NodeId)) (x : BlockId × NodeId)
    (h : Homed d homes l) :
    (∃ homes', d.place homes x = .ok homes' ∧ Homed d homes' (l ++ [x])) ∨
      ∃ e, d.place homes x = .error e ∧ Misplaced d l x e := by
  unfold place
  by_cases known : d.hasNode x.2 = true
  · rw [if_pos known]
    cases taken : homes.get x.2.index with
    | some first => exact .inr ⟨_, rfl, .again first ((h.found x.2 first).mp taken)⟩
    | none =>
      have room : x.2.index < homes.size := by rw [h.size]; simpa [hasNode] using known
      have new : x.2 ∉ l.map (·.2) := fun listed => by
        obtain ⟨y, hy, same⟩ := List.mem_map.mp listed
        have there := (h.found x.2 y.1).mpr (by rw [← same]; exact hy)
        rw [taken] at there
        cases there
      refine .inl ⟨_, rfl, ?_, ?_, ?_, ?_⟩
      · rw [Slots.size_set, h.size]
      · exact List.forall_mem_append.mpr ⟨h.known, List.forall_mem_singleton.mpr known⟩
      · rw [List.map_append, List.map_singleton]
        exact List.nodup_append.mpr ⟨h.once, List.nodup_singleton _, fun n hn m hm same =>
          new (by rw [← List.mem_singleton.mp hm, ← same]; exact hn)⟩
      · intro n b
        rw [Slots.get_set, List.mem_append, List.mem_singleton, Prod.ext_iff, ← h.found]
        by_cases own : x.2 = n
        · subst own
          simp [room, taken, eq_comm]
        · have other : x.2.index ≠ n.index := fun same => own (NodeId.index_inj.mp same)
          simp [other, Ne.symm own]
  · rw [if_neg known]
    exact .inr ⟨_, rfl, .unknown (by simpa using known)⟩

theorem homes_cases (d : Draft) :
    (∃ homes, d.homes = .ok homes ∧ Homed d homes d.placements) ∨
      ∃ e before x after, d.homes = .error e ∧ d.placements = before ++ x :: after ∧ Misplaced d before x e := by
  have empty : Homed d (.filled d.nodes.size none) [] :=
    ⟨Slots.size_filled _ _, fun _ h => (List.not_mem_nil h).elim, List.nodup_nil, fun n b => by simp⟩
  exact foldlM_cases place_cases empty

/-- The tables of edges after these edges, each with its position. -/
structure Linked (d : Draft) (t : Links) (l : List (Edge × Nat)) : Prop where
  sizes : t.outgoing.size = d.blocks.size ∧ t.incoming.size = d.blocks.size
  seen : ∀ e, e ∈ t.seen ↔ e ∈ l.map (·.1)
  ends : ∀ x ∈ l, d.hasBlock x.1.source = true ∧ d.hasBlock x.1.target = true
  distinct : (l.map (·.1)).Nodup
  outgoing : ∀ b : BlockId, t.outgoing.get b.index = (l.filter (·.1.source = b)).map (·.2)
  incoming : ∀ b : BlockId, t.incoming.get b.index = (l.filter (·.1.target = b)).map (·.2)

inductive Mislinked (d : Draft) (before : List (Edge × Nat)) (x : Edge × Nat) : Defect → Prop where
  | source (out : d.hasBlock x.1.source = false) : Mislinked d before x (.unknownBlock x.1.source)
  | target (out : d.hasBlock x.1.target = false) : Mislinked d before x (.unknownBlock x.1.target)
  | again (declared : x.1 ∈ before.map (·.1)) : Mislinked d before x (.repeatedEdge x.1)

/-- A position is entered under one end of its edge, behind those entered before. -/
theorem get_enter {t : Slots (List Nat)} {l : List (Edge × Nat)} {x : Edge × Nat} (ends : Edge → BlockId)
    (room : (ends x.1).index < t.size)
    (entered : ∀ b : BlockId, t.get b.index = (l.filter (ends ·.1 = b)).map (·.2)) (b : BlockId) :
    (t.modify (ends x.1).index (· ++ [x.2])).get b.index = ((l ++ [x]).filter (ends ·.1 = b)).map (·.2) := by
  rw [Slots.get_modify, List.filter_append, List.map_append, ← entered]
  by_cases own : ends x.1 = b
  · subst own
    simp [room]
  · have other : (ends x.1).index ≠ b.index := fun same => own (BlockId.index_inj.mp same)
    simp [other, own]

theorem link_cases (t : Links) (l : List (Edge × Nat)) (x : Edge × Nat) (h : Linked d t l) :
    (∃ t', d.link t x = .ok t' ∧ Linked d t' (l ++ [x])) ∨ ∃ e, d.link t x = .error e ∧ Mislinked d l x e := by
  unfold link
  by_cases source : d.hasBlock x.1.source = true
  · by_cases target : d.hasBlock x.1.target = true
    · by_cases declared : x.1 ∈ t.seen
      · simp only [source, target, declared, Bool.not_true, Bool.false_eq_true, if_false, if_true]
        exact .inr ⟨_, rfl, .again ((h.seen x.1).mp declared)⟩
      · simp only [source, target, declared, Bool.not_true, Bool.false_eq_true, if_false]
        have leaves : x.1.source.index < t.outgoing.size := by rw [h.sizes.1]; simpa [hasBlock] using source
        have enters : x.1.target.index < t.incoming.size := by rw [h.sizes.2]; simpa [hasBlock] using target
        have new : x.1 ∉ l.map (·.1) := mt (h.seen x.1).mpr declared
        refine .inl ⟨_, rfl, ⟨?_, ?_⟩, ?_, ?_, ?_, get_enter Edge.source leaves h.outgoing,
          get_enter Edge.target enters h.incoming⟩
        · exact (Slots.size_set _ _ _).trans h.sizes.1
        · exact (Slots.size_set _ _ _).trans h.sizes.2
        · intro e
          rw [List.mem_cons, h.seen, List.map_append, List.mem_append, List.map_singleton, List.mem_singleton, or_comm]
        · exact List.forall_mem_append.mpr ⟨h.ends, List.forall_mem_singleton.mpr ⟨source, target⟩⟩
        · rw [List.map_append, List.map_singleton]
          exact List.nodup_append.mpr ⟨h.distinct, List.nodup_singleton _, fun e he f hf same =>
            new (by rw [← List.mem_singleton.mp hf, ← same]; exact he)⟩
    · simp only [source, target, Bool.not_true, Bool.not_false, Bool.false_eq_true, if_false, if_true]
      exact .inr ⟨_, rfl, .target (by simpa using target)⟩
  · simp only [source, Bool.not_false, if_true]
    exact .inr ⟨_, rfl, .source (by simpa using source)⟩

theorem links_cases (d : Draft) :
    (∃ t, d.links = .ok t ∧ Linked d t d.edges.zipIdx) ∨
      ∃ e before x after, d.links = .error e ∧ d.edges.zipIdx = before ++ x :: after ∧ Mislinked d before x e := by
  have empty : Linked d { outgoing := .filled d.blocks.size [], incoming := .filled d.blocks.size [] } [] :=
    ⟨⟨Slots.size_filled _ _, Slots.size_filled _ _⟩, fun e => by simp, fun _ h => (List.not_mem_nil h).elim,
      List.nodup_nil, fun b => by simp, fun b => by simp⟩
  exact foldlM_cases link_cases empty

/-- The positions of the edges with one end at a block lead back to those edges. -/
theorem edgesAt_positions (d : Draft) (ends : Edge → BlockId) (b : BlockId) :
    d.edgesAt ((d.edges.zipIdx.filter (ends ·.1 = b)).map (·.2)) = d.edges.filter (ends · = b) := by
  have found : ∀ x ∈ d.edges.zipIdx.filter (ends ·.1 = b), d.edges[x.2]? = some x.1 := fun x hx =>
    List.mk_mem_zipIdx_iff_getElem?.mp (List.mem_of_mem_filter hx)
  rw [edgesAt, List.filterMap_map, List.filterMap_congr (g := fun x => some x.1) found, List.filterMap_eq_map']
  have edges : d.edges = d.edges.zipIdx.map (·.1) := (List.zipIdx_map_fst 0 d.edges).symm
  conv_rhs => rw [edges, List.filter_map]
  rfl

/-- What the check of a draft has made sure of when it comes to its end. -/
structure Passes (d : Draft) (index : Index) : Prop where
  nonempty : d.blocks ≠ #[]
  blockLabels : d.blockLabelDefect? = none
  nodeLabels : d.nodeLabelDefect? = none
  entry : d.hasBlock d.entry = true
  homes : Homed d index.homes d.placements
  operands : d.operandDefect? = none
  edges : ∃ seen, Linked d ⟨seen, index.outgoing, index.incoming⟩ d.edges.zipIdx
  branches : ∀ B ∈ d.blocks, d.branchDefect? index.outgoing B = none

theorem passes_of_check {index : Index} (h : d.check = .ok index) : d.Passes index := by
  simp only [check, bind_eq_ok_iff, refuse_eq_ok_iff, pure, Except.pure, Except.ok.injEq] at h
  obtain ⟨_, nonempty, _, blockLabels, _, nodeLabels, _, entry, homes, placed, _, operands, links, linked, _, branches,
    rfl⟩ := h
  refine ⟨by simpa using nonempty, blockLabels, nodeLabels, by simpa using entry, ?_, operands, ⟨links.seen, ?_⟩,
    fun B hB => List.findSome?_eq_none_iff.mp branches B (Array.mem_toList_iff.mpr hB)⟩
  · rcases d.homes_cases with ⟨_, ok, homed⟩ | ⟨_, _, _, _, error, -⟩
    · cases Except.ok.inj (placed.symm.trans ok)
      exact homed
    · cases placed.symm.trans error
  · rcases d.links_cases with ⟨_, ok, all⟩ | ⟨_, _, _, _, error, -⟩
    · cases Except.ok.inj (linked.symm.trans ok)
      exact all
    · cases linked.symm.trans error

end Draft

namespace Flowgraph

variable (g : Flowgraph)

theorem passed : g.Passes g.index := Draft.passes_of_check g.checked

theorem hasBlock_entry : g.hasBlock g.entry = true := g.passed.entry

variable {g}

/-! ## Blocks and their nodes -/

theorem block_id {i : Nat} {B : Block} (h : g.blocks[i]? = some B) : B.id.index = i := by
  have check := List.findSome?_eq_none_iff.mp g.passed.blockLabels (B, i)
    (List.mk_mem_zipIdx_iff_getElem?.mpr (by simpa using h))
  simpa using check

theorem node_id {i : Nat} {node : Node} (h : g.nodes[i]? = some node) : node.id.index = i := by
  have check := List.findSome?_eq_none_iff.mp g.passed.nodeLabels (node, i)
    (List.mk_mem_zipIdx_iff_getElem?.mpr (by simpa using h))
  simpa using check

theorem hasBlock_iff {b : BlockId} : g.hasBlock b = true ↔ ∃ B, g.blocks[b.index]? = some B ∧ B.id = b := by
  rw [Draft.hasBlock, decide_eq_true_iff]
  constructor
  · intro h
    have hB := Array.getElem?_eq_getElem h
    exact ⟨_, hB, BlockId.index_inj.mp (block_id hB)⟩
  · intro h
    obtain ⟨B, h, -⟩ := h
    exact (Array.getElem?_eq_some_iff.mp h).1

theorem mem_blockIds {b : BlockId} : b ∈ g.blockIds ↔ g.hasBlock b = true := by
  rw [hasBlock_iff, blockIds, List.mem_map]
  constructor
  · intro h
    obtain ⟨B, hB, rfl⟩ := h
    obtain ⟨i, hi⟩ := List.getElem?_of_mem hB
    rw [Array.getElem?_toList] at hi
    exact ⟨B, by rw [block_id hi]; exact hi, rfl⟩
  · intro h
    obtain ⟨B, hB, rfl⟩ := h
    exact ⟨B, Array.mem_toList_iff.mpr (Array.mem_of_getElem? hB), rfl⟩

theorem blockIds_index : g.blockIds.map BlockId.index = List.range g.blocks.size := by
  refine List.ext_getElem (by simp [blockIds]) fun i hi _ => ?_
  have hi : i < g.blocks.size := by simpa [blockIds] using hi
  simpa [blockIds] using block_id (Array.getElem?_eq_getElem hi)

theorem nodes_index : g.nodes.toList.map (·.id.index) = List.range g.nodes.size := by
  refine List.ext_getElem (by simp) fun i hi _ => ?_
  have hi : i < g.nodes.size := by simpa using hi
  simpa using node_id (Array.getElem?_eq_getElem hi)

theorem node?_id {node : Node} (h : node ∈ g.nodes.toList) : g.node? node.id = some node := by
  obtain ⟨i, hi⟩ := List.getElem?_of_mem h
  rw [Array.getElem?_toList] at hi
  rw [node?, node_id hi, hi]

theorem nodup_blockIds : g.blockIds.Nodup :=
  List.Nodup.of_map BlockId.index (by rw [blockIds_index]; exact List.nodup_range)

theorem mem_nodesOf {b : BlockId} {n : NodeId} :
    n ∈ g.nodesOf b ↔ (b, n) ∈ g.placements := by
  simp only [Draft.placements, List.mem_flatMap, List.mem_map, Prod.mk.injEq, exists_eq_right_right]
  unfold nodesOf block?
  constructor
  · intro h
    cases hB : g.blocks[b.index]? with
    | none => simp [hB] at h
    | some B =>
      refine ⟨B, Array.mem_toList_iff.mpr (Array.mem_of_getElem? hB), by simpa [hB] using h, ?_⟩
      exact BlockId.index_inj.mp (block_id hB)
  · intro h
    obtain ⟨B, hB, hn, rfl⟩ := h
    obtain ⟨i, hi⟩ := List.getElem?_of_mem hB
    rw [Array.getElem?_toList] at hi
    rw [block_id hi, hi]
    exact hn

theorem hasBlock_of_mem {b : BlockId} {n : NodeId} (h : n ∈ g.nodesOf b) : g.hasBlock b = true := by
  rw [Draft.hasBlock, decide_eq_true_iff]
  by_contra hb
  simp [nodesOf, block?, Nat.le_of_not_lt hb] at h

/-- No two blocks share a node. -/
theorem block_unique {b c : BlockId} {n : NodeId} (hb : n ∈ g.nodesOf b) (hc : n ∈ g.nodesOf c) : b = c := by
  exact congrArg Prod.fst (List.inj_on_of_nodup_map g.passed.homes.once (mem_nodesOf.mp hb) (mem_nodesOf.mp hc) rfl)

theorem nodup_nodesOf (b : BlockId) : (g.nodesOf b).Nodup := by
  have nodup := g.passed.homes.once
  rw [Draft.placements, List.map_flatMap, List.nodup_flatMap] at nodup
  unfold nodesOf block?
  cases hB : g.blocks[b.index]? with
  | none => simp
  | some B =>
    have := nodup.1 B (Array.mem_toList_iff.mpr (Array.mem_of_getElem? hB))
    rw [List.map_map] at this
    exact List.Nodup.of_map _ this

theorem node_of_mem {b : BlockId} {n : NodeId} (h : n ∈ g.nodesOf b) :
    ∃ node, g.node? n = some node ∧ node.id = n := by
  have exist := g.passed.homes.known _ (mem_nodesOf.mp h)
  rw [Draft.hasNode, decide_eq_true_iff] at exist
  have hn := Array.getElem?_eq_getElem exist
  exact ⟨_, hn, NodeId.index_inj.mp (node_id hn)⟩

/-- A node is in the one block that lists it. -/
theorem blockOf_eq_some_iff {n : NodeId} {b : BlockId} : g.blockOf n = some b ↔ n ∈ g.nodesOf b :=
  (g.passed.homes.found n b).trans mem_nodesOf.symm

/-! ## Edges -/

/-- The table of outgoing edges has what the list of edges has. -/
theorem successors_eq (g : Flowgraph) (b : BlockId) : g.successors b = g.edges.filter (·.source = b) := by
  obtain ⟨_, linked⟩ := g.passed.edges
  rw [successors, linked.outgoing]
  exact g.edgesAt_positions Edge.source b

theorem predecessors_eq (g : Flowgraph) (b : BlockId) : g.predecessors b = g.edges.filter (·.target = b) := by
  obtain ⟨_, linked⟩ := g.passed.edges
  rw [predecessors, linked.incoming]
  exact g.edgesAt_positions Edge.target b

theorem mem_targets {b t : BlockId} : t ∈ g.targets b ↔ ∃ e ∈ g.edges, e.source = b ∧ e.target = t := by
  simp [targets, successors_eq, and_assoc]

theorem mem_predecessors {b : BlockId} {e : Edge} : e ∈ g.predecessors b ↔ e ∈ g.edges ∧ e.target = b := by
  simp [predecessors_eq]

theorem ends_known {e : Edge} (h : e ∈ g.edges) : g.hasBlock e.source = true ∧ g.hasBlock e.target = true := by
  obtain ⟨_, linked⟩ := g.passed.edges
  obtain ⟨i, hi⟩ := List.getElem?_of_mem h
  exact linked.ends (e, i) (List.mk_mem_zipIdx_iff_getElem?.mpr hi)

theorem hasBlock_target {e : Edge} (h : e ∈ g.edges) : g.hasBlock e.target = true := (ends_known h).2

theorem nodup_edges (g : Flowgraph) : g.edges.Nodup := by
  obtain ⟨_, linked⟩ := g.passed.edges
  have distinct := linked.distinct
  rwa [List.zipIdx_map_fst] at distinct

/-! ## Operands -/

/-- Operands of the nodes in `rest` that are not among `earlier` or the nodes before them. -/
def outsideOperands (g : Flowgraph) (earlier : List NodeId) : List NodeId → List NodeId
  | [] => []
  | n :: rest => (g.operandsOf n).filter (· ∉ earlier) ++ outsideOperands g (n :: earlier) rest

/-- The operands a block takes from elsewhere, or from its own later nodes. -/
def imports (g : Flowgraph) (b : BlockId) : List NodeId := g.outsideOperands [] (g.nodesOf b)

theorem mem_outsideOperands {earlier l : List NodeId} {m : NodeId} :
    m ∈ g.outsideOperands earlier l ↔
      ∃ before n after, l = before ++ n :: after ∧ m ∈ g.operandsOf n ∧ m ∉ earlier ∧ m ∉ before := by
  induction l generalizing earlier with
  | nil => simp [outsideOperands]
  | cons k l ih =>
    rw [outsideOperands, List.mem_append, List.mem_filter, decide_eq_true_iff, ih]
    constructor
    · rintro (⟨hm, he⟩ | ⟨before, n, after, rfl, hm, he, hb⟩)
      · exact ⟨[], k, l, rfl, hm, he, List.not_mem_nil⟩
      · obtain ⟨ne, he⟩ := not_or.mp (mt List.mem_cons.mpr he)
        exact ⟨k :: before, n, after, rfl, hm, he, List.not_mem_cons_of_ne_of_not_mem ne hb⟩
    · rintro ⟨before, n, after, split, hm, he, hb⟩
      cases before with
      | nil =>
        obtain ⟨rfl, rfl⟩ := List.cons.inj split
        exact .inl ⟨hm, he⟩
      | cons k' before =>
        obtain ⟨rfl, rfl⟩ := List.cons.inj split
        obtain ⟨ne, hb⟩ := not_or.mp (mt List.mem_cons.mpr hb)
        exact .inr ⟨before, n, after, rfl, hm, List.not_mem_cons_of_ne_of_not_mem ne he, hb⟩

theorem mem_imports {b : BlockId} {m : NodeId} :
    m ∈ g.imports b ↔ ∃ before n after, g.nodesOf b = before ++ n :: after ∧ m ∈ g.operandsOf n ∧ m ∉ before := by
  simp [imports, mem_outsideOperands]

theorem outsideOperands_spec {earlier l : List NodeId} {m : NodeId} (h : m ∈ g.outsideOperands earlier l) :
    m ∉ earlier ∧ ∃ n ∈ l, m ∈ g.operandsOf n := by
  obtain ⟨before, n, after, rfl, hm, he, -⟩ := mem_outsideOperands.mp h
  exact ⟨he, n, by simp, hm⟩

theorem hasBlock_of_imports {b : BlockId} {m : NodeId} (h : m ∈ g.imports b) : g.hasBlock b = true := by
  obtain ⟨-, n, hn, -⟩ := outsideOperands_spec h
  exact hasBlock_of_mem hn

/-- An operand of a node of a block is another node of the block or one of its imports. -/
theorem operand_local_or_imported {b : BlockId} {n m : NodeId} (hn : n ∈ g.nodesOf b)
    (hm : m ∈ g.operandsOf n) : m ∈ g.nodesOf b ∨ m ∈ g.imports b := by
  obtain ⟨before, after, split⟩ := List.append_of_mem hn
  by_cases hb : m ∈ before
  · left
    rw [split]
    exact List.mem_append_left _ hb
  · exact .inr (mem_imports.mpr ⟨before, n, after, split, hm, hb⟩)

end Flowgraph

end FlowCheck
