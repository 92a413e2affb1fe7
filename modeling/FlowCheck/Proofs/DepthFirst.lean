/-
  FlowCheck.Proofs.DepthFirst — what the depth-first walk of a graph finds.

  The blocks a walk has come to are listed from the entry inwards to the innermost open one, then the
  finished ones, latest first (`Walk.order`). To close a block leaves the list as it is and to open one
  puts it behind the open ones, so the list only grows, and at the end it is the reverse postorder.
  - `walk_exact`: it starts with the entry and has each reachable block once. The walk ends, after one
    step for each of these blocks and one for each edge that leaves them.
  - `loopHeads_cut`: where an edge is found to lead back, its target is listed no later than its
    source, and the open blocks between the two form a cycle. All other edges lead on in the list, so
    every cycle runs through a loop head.
-/

import FlowCheck.Proofs.Order
import Mathlib.Data.List.Chain

namespace FlowCheck

/-- Blocks in a ring: an edge leads from each to the next, and from the last to the first. -/
def Flowgraph.IsCycle (g : Flowgraph) : List BlockId → Prop
  | [] => False
  | b :: rest => (b :: (rest ++ [b])).IsChain fun c d => d ∈ g.targets c

/-- Lists the reachable blocks, each once and before the blocks its edges lead to. -/
structure Flowgraph.IsTopological (g : Flowgraph) (l : List BlockId) : Prop where
  nodup : l.Nodup
  mem_iff : ∀ b, b ∈ l ↔ g.Reachable b
  forward : ∀ e ∈ g.edges, g.Reachable e.source → l.idxOf e.source < l.idxOf e.target

namespace Walk

inductive Steps (g : Flowgraph) : Nat → Walk → Walk → Prop where
  | none (w : Walk) : Steps g 0 w w
  | next {n : Nat} {w u v : Walk} : Steps g n w u → Step g u v → Steps g (n + 1) w v

/-- The blocks come to: the open ones from the entry inwards, then the finished ones, latest first. -/
def order (w : Walk) : List BlockId := (w.path.map (·.block)).reverse ++ w.finished

/-- The number of edges that open blocks have not followed yet. -/
def ahead (w : Walk) : Nat := (w.path.flatMap (·.ahead)).length

def leaving (g : Flowgraph) (l : List BlockId) : Nat := (l.flatMap g.successors).length

section

variable {g : Flowgraph} {w w' u v : Walk} {b t : BlockId} {rest : List BlockId} {below : List Frame} {n m : Nat}

/-! ## The number of steps -/

theorem Step.unique (h : Step g w u) (h' : Step g w v) : u = v := by
  cases h <;> cases h' <;> simp_all

theorem Steps.unique (h : Steps g n w u) (h' : Steps g n w v) : u = v := by
  induction h generalizing v with
  | none => cases h'; rfl
  | next _ step ih =>
    cases h' with
    | next steps' step' =>
      cases ih steps'
      exact step.unique step'

/-- Nothing comes after a walk without open blocks. -/
theorem Steps.le_of_ended (h : Steps g n w u) (ended : u.path = []) (h' : Steps g m w v) : m ≤ n := by
  induction h' with
  | none => exact Nat.zero_le n
  | next steps step ih =>
    refine Nat.lt_of_le_of_ne (ih h) fun same => ?_
    subst same
    cases h.unique steps
    cases step <;> simp_all

theorem exists_steps_run (g : Flowgraph) (w : Walk) : ∃ n, Steps g n w (run g w) :=
  run_invariant (P := fun u => ∃ n, Steps g n w u) (fun ⟨n, steps⟩ step => ⟨n + 1, steps.next step⟩)
    ⟨0, .none w⟩

theorem length_targets (g : Flowgraph) (b : BlockId) : (g.targets b).length = (g.successors b).length :=
  List.length_map _

/-- A step closes a block or follows an edge. -/
theorem Step.balance (step : Step g w w') :
    w'.finished.length + leaving g w'.order + w.ahead = w.finished.length + leaving g w.order + w'.ahead + 1 := by
  cases step with
  | close path | back path _ _ | pass path _ _ => simp [order, ahead, leaving, path]; omega
  | enter path _ => simp [order, ahead, leaving, path, length_targets]; omega

theorem Steps.balance (h : Steps g n w u) :
    u.finished.length + leaving g u.order + w.ahead = w.finished.length + leaving g w.order + u.ahead + n := by
  induction h with
  | none => rfl
  | next _ step ih =>
    have := step.balance
    omega

/-! ## The order grows -/

/-- A step puts at most one block behind the open ones. -/
theorem Step.order_eq (step : Step g w w') :
    ∃ front new, front ≠ [] ∧ w.order = front ++ w.finished ∧ w'.order = front ++ (new ++ w.finished) := by
  cases step with
  | close path | back path _ _ | pass path _ _ =>
    exact ⟨(w.path.map (·.block)).reverse, [], by simp [path], rfl, by simp [order, path]⟩
  | @enter b t rest below path unseen =>
    exact ⟨(w.path.map (·.block)).reverse, [t], by simp [path], rfl, by simp [order, path]⟩

theorem Step.order_sublist (step : Step g w w') : w.order.Sublist w'.order := by
  obtain ⟨front, new, -, before, after⟩ := step.order_eq
  rw [before, after]
  exact (List.sublist_append_right new w.finished).append_left front

/-! ## Edges that lead back -/

/-- What the walk knows of the entry, the open blocks and the loop heads. -/
structure Charted (g : Flowgraph) (w : Walk) : Prop where
  entry : w.order.head? = some g.entry
  /-- Each open block was opened from the next one out. -/
  linked : (w.path.map (·.block)).IsChain fun c b => c ∈ g.targets b
  /-- An edge leads to each head from a block listed no earlier. -/
  back : ∀ h ∈ w.heads, ∃ b, g.Reachable b ∧ h ∈ g.targets b ∧ (h = b ∨ [h, b].Sublist w.order)
  cycle : ∀ h ∈ w.heads, ∃ ring, g.IsCycle (h :: ring) ∧ (h :: ring).Nodup ∧ ∀ b ∈ h :: ring, g.Reachable b

theorem charted_outset (g : Flowgraph) : Charted g (outset g) where
  entry := rfl
  linked := .singleton _
  back _ hh := by cases hh
  cycle _ hh := by cases hh

/-- The innermost open block is reachable, and its next edge is one of its edges. -/
theorem Reached.innermost (h : Reached g w) (path : w.path = ⟨b, t :: rest⟩ :: below) :
    g.Reachable b ∧ t ∈ g.targets b := by
  obtain ⟨reach, edges⟩ := h.path ⟨b, t :: rest⟩ (by simp [path])
  exact ⟨reach, edges t List.mem_cons_self⟩

/-- An open block is listed no later than the innermost one. -/
theorem order_of_opened (path : w.path = ⟨b, t :: rest⟩ :: below) (opened : w.isOpen t = true) :
    t = b ∨ [t, b].Sublist w.order := by
  have inside : t ∈ w.path.map (·.block) := by simpa [isOpen] using opened
  rw [path, List.map_cons, List.mem_cons] at inside
  refine inside.imp id fun h => ?_
  have listed : w.order = (below.map (·.block)).reverse ++ (b :: w.finished) := by simp [order, path]
  rw [listed]
  exact (List.singleton_sublist.mpr (List.mem_reverse.mpr h)).append (List.singleton_sublist.mpr List.mem_cons_self)

/-- The open blocks from `t` inwards form a cycle if an edge leads from the innermost one to `t`. -/
theorem cycle_of_opened (sound : Sound g w) (reached : Reached g w)
    (linked : (w.path.map (·.block)).IsChain fun c b => c ∈ g.targets b)
    (path : w.path = ⟨b, t :: rest⟩ :: below) (opened : w.isOpen t = true) :
    ∃ ring, g.IsCycle (t :: ring) ∧ (t :: ring).Nodup ∧ ∀ c ∈ t :: ring, g.Reachable c := by
  have inside : t ∈ w.path.map (·.block) := by simpa [isOpen] using opened
  have edge : t ∈ g.targets b := (reached.innermost path).2
  obtain ⟨inner, outer, split⟩ := List.append_of_mem inside
  rw [List.append_cons] at split
  have innermost : (inner ++ [t]).head? = some b := by
    have first : (w.path.map (·.block)).head? = some b := by simp [path]
    rw [split] at first
    cases inner <;> simpa using first
  have nodup : (inner ++ [t]).Nodup := by
    have := sound.nodup.of_append_right.of_append_left
    rw [split] at this
    exact this.of_append_left
  have chain : (inner ++ [t]).IsChain fun c b => c ∈ g.targets b := by
    rw [split] at linked
    exact linked.left_of_append
  -- read from `t` inwards, the chain follows the edges
  have turned : (t :: inner.reverse) = (inner ++ [t]).reverse := by simp
  refine ⟨inner.reverse, ?_, ?_, fun c hc => ?_⟩
  · show ((t :: inner.reverse) ++ [t]).IsChain _
    rw [turned, List.isChain_append]
    refine ⟨List.isChain_reverse.mpr chain, .singleton t, ?_⟩
    rw [List.getLast?_reverse, innermost]
    simpa using edge
  · rw [turned]
    exact List.nodup_reverse.mpr nodup
  · have here : c ∈ w.path.map (·.block) := by
      rw [turned, List.mem_reverse] at hc
      rw [split]
      exact List.mem_append_left _ hc
    obtain ⟨f, hf, rfl⟩ := List.mem_map.mp here
    exact (reached.path f hf).1

theorem Charted.step (sound : Sound g w) (reached : Reached g w) (h : Charted g w) (step : Step g w w') :
    Charted g w' where
  entry := by
    obtain ⟨front, new, nonempty, before, after⟩ := step.order_eq
    have entry := h.entry
    rw [before, List.head?_append_of_ne_nil _ nonempty] at entry
    rw [after, List.head?_append_of_ne_nil _ nonempty, entry]
  linked := by
    have linked := h.linked
    cases step with
    | close path => rw [path] at linked; exact linked.tail
    | back path _ _ | pass path _ _ => rwa [path] at linked
    | enter path _ =>
      rw [path] at linked
      exact .cons_cons (reached.innermost path).2 linked
  back k hk := by
    have grows := step.order_sublist
    have kept : ∀ h ∈ w.heads, ∃ b, g.Reachable b ∧ h ∈ g.targets b ∧ (h = b ∨ [h, b].Sublist w'.order) :=
      fun k hk => by
        obtain ⟨b, reach, edge, listed⟩ := h.back k hk
        exact ⟨b, reach, edge, listed.imp id (·.trans grows)⟩
    cases step with
    | close | enter | pass => exact kept k hk
    | @back b t rest below path seen opened =>
      rcases List.mem_cons.mp hk with rfl | hk
      · obtain ⟨reach, edge⟩ := reached.innermost path
        exact ⟨b, reach, edge, (order_of_opened path opened).imp id (·.trans grows)⟩
      · exact kept k hk
  cycle k hk := by
    cases step with
    | close | enter | pass => exact h.cycle k hk
    | back path _ opened =>
      rcases List.mem_cons.mp hk with rfl | hk
      · exact cycle_of_opened sound reached h.linked path opened
      · exact h.cycle k hk

end

end Walk

/-- What comes earlier in a list without repetitions has the smaller index. -/
theorem idxOf_lt_of_sublist {α : Type} [DecidableEq α] {l : List α} (nodup : l.Nodup) {a b : α}
    (h : [a, b].Sublist l) :
    l.idxOf a < l.idxOf b := by
  obtain ⟨front, back, rfl, ha, hb⟩ := List.cons_sublist_iff.mp h
  have apart : b ∉ front := fun hf => (List.nodup_append.mp nodup).2.2 b hf b (List.singleton_sublist.mp hb) rfl
  rw [List.idxOf_append_of_mem ha, List.idxOf_append_of_notMem apart]
  have := List.idxOf_lt_length_of_mem ha
  omega

namespace Flowgraph

variable {g : Flowgraph} {v : BlockId}

theorem charted_walk (g : Flowgraph) : Walk.Charted g g.walk :=
  (Walk.run_invariant (P := fun w => Walk.Sound g w ∧ Walk.Reached g w ∧ Walk.Charted g w)
    (fun ⟨sound, reached, charted⟩ step =>
      ⟨sound.step step, reached.step step, charted.step sound reached step⟩)
    ⟨Walk.sound_outset g, Walk.reached_outset g, Walk.charted_outset g⟩).2.2

theorem order_walk (g : Flowgraph) : g.walk.order = g.reversePostorder := by
  rw [Walk.order, g.sound_walk.2]
  rfl

/-- The walk ends, after one step for each reachable block and one for each edge that leaves one of
them. What it has finished then are the reachable blocks, each once and the entry first. -/
theorem walk_exact (g : Flowgraph) :
    let total := g.reversePostorder.length + (g.reversePostorder.flatMap g.successors).length
    (Walk.Steps g total (Walk.outset g) g.walk ∧ ∀ n w, Walk.Steps g n (Walk.outset g) w → n ≤ total) ∧
      (∀ b, b ∈ g.reversePostorder ↔ g.Reachable b) ∧
      g.reversePostorder.Nodup ∧ g.reversePostorder.head? = some g.entry := by
  intro total
  obtain ⟨n, steps⟩ := Walk.exists_steps_run g (Walk.outset g)
  have ended : g.walk.path = [] := g.sound_walk.2
  have count : n = total := by
    have balance : g.reversePostorder.length + Walk.leaving g g.walk.order + (Walk.outset g).ahead =
        0 + Walk.leaving g (Walk.outset g).order + g.walk.ahead + n := steps.balance
    have whole : Walk.leaving g g.walk.order = (g.reversePostorder.flatMap g.successors).length := by
      rw [order_walk, Walk.leaving]
    have done : g.walk.ahead = 0 := by simp [Walk.ahead, ended]
    have entry : (Walk.outset g).ahead = Walk.leaving g (Walk.outset g).order := by
      simp [Walk.outset, Walk.ahead, Walk.leaving, Walk.order, Walk.length_targets]
    omega
  subst count
  refine ⟨⟨steps, fun m w steps' => steps.le_of_ended ended steps'⟩, fun b => mem_reversePostorder,
    g.nodup_reversePostorder, ?_⟩
  rw [← order_walk]
  exact g.charted_walk.entry

/-! ## Loop heads -/

theorem mem_heads_of_mem_loopHeads (h : v ∈ g.loopHeads) : v ∈ g.walk.heads := by
  simpa using (List.mem_filter.mp h).2

/-- An edge that leads to no loop head leads on in the order. -/
theorem idxOf_lt_of_plain {e : Edge} (he : e ∈ g.edges) (plain : e.target ∉ g.loopHeads)
    (reached : g.Reachable e.source) :
    g.reversePostorder.idxOf e.source < g.reversePostorder.idxOf e.target := by
  have source := mem_reversePostorder.mpr reached
  have lt := Plan.rank_lt he plain source
  rwa [Plan.rank_eq source, Plan.rank_eq (reversePostorder_closed he source)] at lt

/-- The loop heads are the targets of the edges that do not lead on in the order. -/
theorem mem_loopHeads_iff :
    v ∈ g.loopHeads ↔ ∃ e ∈ g.edges, e.target = v ∧ g.Reachable e.source ∧
      g.reversePostorder.idxOf v ≤ g.reversePostorder.idxOf e.source := by
  constructor
  · intro head
    obtain ⟨b, reach, edge, listed⟩ := g.charted_walk.back v (mem_heads_of_mem_loopHeads head)
    obtain ⟨e, he, rfl, rfl⟩ := mem_targets.mp edge
    refine ⟨e, he, rfl, reach, ?_⟩
    rcases listed with same | listed
    · rw [same]
    · rw [order_walk] at listed
      exact (idxOf_lt_of_sublist g.nodup_reversePostorder listed).le
  · rintro ⟨e, he, rfl, reach, le⟩
    by_contra plain
    have := idxOf_lt_of_plain he plain reach
    omega

theorem exists_cycle_of_head (h : v ∈ g.loopHeads) :
    ∃ ring, g.IsCycle (v :: ring) ∧ (v :: ring).Nodup ∧ ∀ b ∈ v :: ring, g.Reachable b :=
  g.charted_walk.cycle v (mem_heads_of_mem_loopHeads h)

theorem exists_head_of_cycle {ring : List BlockId} (cycle : g.IsCycle ring) (reached : ∀ b ∈ ring, g.Reachable b) :
    ∃ b ∈ ring, b ∈ g.loopHeads := by
  cases ring with
  | nil => exact cycle.elim
  | cons b rest =>
    by_contra headless
    -- with no head on it, the order would rise all the way around
    have rises : (b :: (rest ++ [b])).IsChain fun c d => g.reversePostorder.idxOf c < g.reversePostorder.idxOf d := by
      refine List.IsChain.imp_of_mem_imp (fun c d hc hd edge => ?_) cycle
      have around : ∀ x ∈ b :: (rest ++ [b]), x ∈ b :: rest := fun x hx => by
        simpa [or_comm, or_left_comm] using hx
      obtain ⟨e, he, rfl, rfl⟩ := mem_targets.mp edge
      exact idxOf_lt_of_plain he (fun head => headless ⟨_, around _ hd, head⟩) (reached _ (around _ hc))
    have last : b ∈ rest ++ [b] := by simp
    exact Nat.lt_irrefl _ (List.rel_of_pairwise_cons rises.pairwise last)

/-- The loop heads are the targets of the edges that do not lead on in the reverse postorder. Each lies
on a cycle of reachable blocks, and every such cycle runs through one of them. So there is none exactly
if no cycle is reachable, and then the reverse postorder is a topological order. -/
theorem loopHeads_cut (g : Flowgraph) :
    (∀ v, v ∈ g.loopHeads ↔ ∃ e ∈ g.edges, e.target = v ∧ g.Reachable e.source ∧
        g.reversePostorder.idxOf v ≤ g.reversePostorder.idxOf e.source) ∧
      (∀ v ∈ g.loopHeads, ∃ ring, g.IsCycle (v :: ring) ∧ (v :: ring).Nodup ∧ ∀ b ∈ v :: ring, g.Reachable b) ∧
      (∀ ring, g.IsCycle ring → (∀ b ∈ ring, g.Reachable b) → ∃ b ∈ ring, b ∈ g.loopHeads) ∧
      (g.loopHeads = [] ↔ ¬∃ ring, g.IsCycle ring ∧ ∀ b ∈ ring, g.Reachable b) ∧
      (g.loopHeads = [] → g.IsTopological g.reversePostorder) := by
  refine ⟨fun v => mem_loopHeads_iff, fun v => exists_cycle_of_head, fun ring => exists_head_of_cycle, ?_,
    fun loopless => ⟨g.nodup_reversePostorder, fun b => mem_reversePostorder, fun e he reached => ?_⟩⟩
  · constructor
    · rintro loopless ⟨ring, cycle, reached⟩
      obtain ⟨b, -, head⟩ := exists_head_of_cycle cycle reached
      rw [loopless] at head
      cases head
    · intro acyclic
      refine List.eq_nil_iff_forall_not_mem.mpr fun v head => ?_
      obtain ⟨ring, cycle, -, reached⟩ := exists_cycle_of_head head
      exact acyclic ⟨v :: ring, cycle, reached⟩
  · exact idxOf_lt_of_plain he (by simp [loopless]) reached

end Flowgraph

end FlowCheck
