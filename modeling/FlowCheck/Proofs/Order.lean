/-
  FlowCheck.Proofs.Order — the walk leaves nothing out, and what the solver's plan says of a graph.

  The blocks a walk has finished lead only to blocks it has seen, so once no block is open the
  finished ones contain the entry and are closed under edges (`reversePostorder_closed`): they are
  the reachable ones (`mem_reversePostorder`). The plan numbers exactly those blocks (`order_rank`)
  and marks the loop heads. By these numbers the operands of a graph are in order (`InOrder`) if no
  block reads a value computed at its own number or a later one.
-/

import FlowCheck.Analysis.Solver
import FlowCheck.Proofs.Graphs
import Mathlib.Data.List.Permutation

namespace FlowCheck

inductive Flowgraph.Reachable (g : Flowgraph) : BlockId → Prop where
  | entry : Reachable g g.entry
  | edge {e : Edge} : e ∈ g.edges → Reachable g e.source → Reachable g e.target

namespace Walk

def outset (g : Flowgraph) : Walk :=
  { unseen := g.blockIds.erase g.entry, path := [⟨g.entry, g.targets g.entry⟩] }

inductive Step (g : Flowgraph) (w : Walk) : Walk → Prop where
  /-- The innermost open block has no edge left. -/
  | close {b : BlockId} {below : List Frame} (path : w.path = ⟨b, []⟩ :: below) :
      Step g w { w with path := below, finished := b :: w.finished }
  /-- Its next edge leads to an unseen block. -/
  | enter {b t : BlockId} {rest : List BlockId} {below : List Frame} (path : w.path = ⟨b, t :: rest⟩ :: below)
      (unseen : t ∈ w.unseen) :
      Step g w { w with unseen := w.unseen.erase t, path := ⟨t, g.targets t⟩ :: ⟨b, rest⟩ :: below }
  /-- The edge leads back to an open block. -/
  | back {b t : BlockId} {rest : List BlockId} {below : List Frame} (path : w.path = ⟨b, t :: rest⟩ :: below)
      (seen : t ∉ w.unseen) (opened : w.isOpen t = true) :
      Step g w { w with path := ⟨b, rest⟩ :: below, heads := t :: w.heads }
  /-- The edge leads to a block that is neither. -/
  | pass {b t : BlockId} {rest : List BlockId} {below : List Frame} (path : w.path = ⟨b, t :: rest⟩ :: below)
      (seen : t ∉ w.unseen) (closed : ¬w.isOpen t = true) :
      Step g w { w with path := ⟨b, rest⟩ :: below }

/-- What every step keeps, a whole walk keeps. -/
theorem run_invariant {g : Flowgraph} {P : Walk → Prop} (keeps : ∀ {w w' : Walk}, P w → Step g w w' → P w')
    {w : Walk} (h : P w) : P (run g w) := by
  fun_induction run g w with
  | case1 w path => exact h
  | case2 w b below path ih => exact ih (keeps h (.close path))
  | case3 w b t rest below path unseen ih => exact ih (keeps h (.enter path unseen))
  | case4 w b t rest below path seen opened ih => exact ih (keeps h (.back path seen opened))
  | case5 w b t rest below path seen closed ih => exact ih (keeps h (.pass path seen closed))

theorem path_run (g : Flowgraph) (w : Walk) : (run g w).path = [] := by
  fun_induction run g w <;> assumption

structure Sound (g : Flowgraph) (w : Walk) : Prop where
  /-- Every block is unseen, open or finished, and only one of the three. -/
  whole : (w.unseen ++ (w.path.map (·.block) ++ w.finished)).Perm g.blockIds
  /-- Finished blocks lead to seen ones. -/
  closed : ∀ b ∈ w.finished, ∀ t ∈ g.targets b, t ∉ w.unseen
  /-- So do open blocks, except by edges not yet followed. -/
  ahead : ∀ f ∈ w.path, ∀ t ∈ g.targets f.block, t ∈ f.ahead ∨ t ∉ w.unseen
  entry : g.entry ∈ w.path.map (·.block) ∨ g.entry ∈ w.finished
  known : ∀ f ∈ w.path, ∀ t ∈ f.ahead, g.hasBlock t = true

section

variable {g : Flowgraph} {w w' : Walk} {b t : BlockId} {rest : List BlockId} {below : List Frame}

theorem Sound.nodup (h : Sound g w) : (w.unseen ++ (w.path.map (·.block) ++ w.finished)).Nodup :=
  h.whole.nodup_iff.mpr Flowgraph.nodup_blockIds

theorem Sound.spread (h : Sound g w) (hb : g.hasBlock b = true) :
    b ∈ w.unseen ∨ b ∈ w.path.map (·.block) ∨ b ∈ w.finished := by
  have := h.whole.mem_iff.mpr (Flowgraph.mem_blockIds.mpr hb)
  rwa [List.mem_append, List.mem_append] at this

theorem targets_known : ∀ t ∈ g.targets b, g.hasBlock t = true := fun t ht => by
  obtain ⟨e, he, -, rfl⟩ := Flowgraph.mem_targets.mp ht
  exact Flowgraph.hasBlock_target he

theorem sound_outset (g : Flowgraph) : Sound g (outset g) where
  whole := by
    have exist := Flowgraph.mem_blockIds.mpr g.hasBlock_entry
    exact (List.perm_append_singleton _ _).trans (List.perm_cons_erase exist).symm
  closed _ hb := by cases hb
  ahead f hf t ht := by
    cases List.mem_singleton.mp hf
    exact .inl ht
  entry := .inl (by simp [outset])
  known f hf t ht := by
    cases List.mem_singleton.mp hf
    exact targets_known t ht

theorem sound_close (h : Sound g w) (path : w.path = ⟨b, []⟩ :: below) :
    Sound g { w with path := below, finished := b :: w.finished } where
  whole := by
    have whole := h.whole
    rw [path, List.map_cons, List.cons_append] at whole
    exact (List.perm_middle.append_left w.unseen).trans whole
  closed c hc t ht := by
    rcases List.mem_cons.mp hc with rfl | hc
    · exact (h.ahead ⟨c, []⟩ (by simp [path]) t ht).resolve_left List.not_mem_nil
    · exact h.closed c hc t ht
  ahead f hf := h.ahead f (by simp [path, hf])
  entry := by
    have := h.entry
    rw [path, List.map_cons, List.mem_cons] at this
    rw [List.mem_cons]
    tauto
  known f hf := h.known f (by simp [path, hf])

theorem sound_open (h : Sound g w) (path : w.path = ⟨b, t :: rest⟩ :: below) (unseen : t ∈ w.unseen) :
    Sound g { w with unseen := w.unseen.erase t, path := ⟨t, g.targets t⟩ :: ⟨b, rest⟩ :: below } where
  whole := by
    have whole := h.whole
    rw [path] at whole
    exact List.perm_middle.trans (((List.perm_cons_erase unseen).symm.append_right _).trans whole)
  closed c hc u hu hm := h.closed c hc u hu (List.mem_of_mem_erase hm)
  ahead f hf u hu := by
    have nodup := h.nodup.of_append_left
    rcases List.mem_cons.mp hf with rfl | hf
    · exact .inl hu
    rcases List.mem_cons.mp hf with rfl | hf
    · rcases h.ahead ⟨b, t :: rest⟩ (by simp [path]) u hu with h' | h'
      · rcases List.mem_cons.mp h' with rfl | h'
        · exact .inr nodup.not_mem_erase
        · exact .inl h'
      · exact .inr fun hm => h' (List.mem_of_mem_erase hm)
    · rcases h.ahead f (by simp [path, hf]) u hu with h' | h'
      · exact .inl h'
      · exact .inr fun hm => h' (List.mem_of_mem_erase hm)
  entry := by
    have := h.entry
    rw [path] at this
    exact this.imp (List.mem_cons_of_mem _) id
  known f hf u hu := by
    rcases List.mem_cons.mp hf with rfl | hf
    · exact targets_known u hu
    rcases List.mem_cons.mp hf with rfl | hf
    · exact h.known ⟨b, t :: rest⟩ (by simp [path]) u (List.mem_cons_of_mem _ hu)
    · exact h.known f (by simp [path, hf]) u hu

theorem sound_pass (h : Sound g w) (path : w.path = ⟨b, t :: rest⟩ :: below) (seen : t ∉ w.unseen)
    (heads : List BlockId) : Sound g { w with path := ⟨b, rest⟩ :: below, heads } where
  whole := by have := h.whole; rwa [path] at this
  closed := h.closed
  ahead f hf u hu := by
    rcases List.mem_cons.mp hf with rfl | hf
    · rcases h.ahead ⟨b, t :: rest⟩ (by simp [path]) u hu with h' | h'
      · rcases List.mem_cons.mp h' with rfl | h'
        · exact .inr seen
        · exact .inl h'
      · exact .inr h'
    · exact h.ahead f (by simp [path, hf]) u hu
  entry := by have := h.entry; rwa [path] at this
  known f hf u hu := by
    rcases List.mem_cons.mp hf with rfl | hf
    · exact h.known ⟨b, t :: rest⟩ (by simp [path]) u (List.mem_cons_of_mem _ hu)
    · exact h.known f (by simp [path, hf]) u hu

/-! ## Where edges lead in the order -/

/-- The targets of an open block are still ahead, or heads, or finished, or the block opened from it. -/
def Climbs (g : Flowgraph) (heads finished : List BlockId) : Option BlockId → List Frame → Prop
  | _, [] => True
  | above, f :: below =>
    (∀ t ∈ g.targets f.block, t ∈ f.ahead ∨ t ∈ heads ∨ t ∈ finished ∨ above = some t)
      ∧ Climbs g heads finished (some f.block) below

/-- Edges between finished blocks lead on in the order, except to heads. -/
structure Forward (g : Flowgraph) (w : Walk) : Prop where
  finished : ∀ earlier b later, w.finished = earlier ++ b :: later → ∀ t ∈ g.targets b, t ∈ w.heads ∨ t ∈ later
  path : Climbs g w.heads w.finished none w.path

theorem Climbs.mono {heads heads' finished finished' : List BlockId} (hh : ∀ t ∈ heads, t ∈ heads')
    (hf : ∀ t ∈ finished, t ∈ finished') {above : Option BlockId} {path : List Frame}
    (h : Climbs g heads finished above path) : Climbs g heads' finished' above path := by
  induction path generalizing above with
  | nil => trivial
  | cons f below ih =>
    refine ⟨fun t ht => ?_, ih h.2⟩
    rcases h.1 t ht with h' | h' | h' | h'
    · exact .inl h'
    · exact .inr (.inl (hh t h'))
    · exact .inr (.inr (.inl (hf t h')))
    · exact .inr (.inr (.inr h'))

/-- A block that has been closed counts as finished instead of open. -/
theorem Climbs.close {heads finished : List BlockId} (h : Climbs g heads finished (some b) below) :
    Climbs g heads (b :: finished) none below := by
  cases below with
  | nil => trivial
  | cons f below =>
    refine ⟨fun t ht => ?_, h.2.mono (fun _ h => h) fun _ h => List.mem_cons_of_mem _ h⟩
    rcases h.1 t ht with h' | h' | h' | h'
    · exact .inl h'
    · exact .inr (.inl h')
    · exact .inr (.inr (.inl (List.mem_cons_of_mem _ h')))
    · exact .inr (.inr (.inl (Option.some.inj h' ▸ List.mem_cons_self)))

theorem forward_close (h : Forward g w) (path : w.path = ⟨b, []⟩ :: below) :
    Forward g { w with path := below, finished := b :: w.finished } := by
  have climbs := h.path
  rw [path] at climbs
  refine ⟨fun earlier c later split t ht => ?_, climbs.2.close⟩
  cases earlier with
  | nil =>
    obtain ⟨rfl, rfl⟩ := List.cons.inj split
    rcases climbs.1 t ht with h' | h' | h' | h'
    · cases h'
    · exact .inl h'
    · exact .inr h'
    · cases h'
  | cons d earlier => exact h.finished earlier c later (List.cons.inj split).2 t ht

theorem forward_open (h : Forward g w) (path : w.path = ⟨b, t :: rest⟩ :: below) (unseen : List BlockId) :
    Forward g { w with unseen, path := ⟨t, g.targets t⟩ :: ⟨b, rest⟩ :: below } := by
  have climbs := h.path
  rw [path] at climbs
  refine ⟨h.finished, fun u hu => .inl hu, fun u hu => ?_, climbs.2⟩
  rcases climbs.1 u hu with h' | h' | h' | h'
  · rcases List.mem_cons.mp h' with rfl | h'
    · exact .inr (.inr (.inr rfl))
    · exact .inl h'
  · exact .inr (.inl h')
  · exact .inr (.inr (.inl h'))
  · cases h'

/-- An edge into a head or a finished block is used up. -/
theorem forward_pass (h : Forward g w) (path : w.path = ⟨b, t :: rest⟩ :: below) {heads : List BlockId}
    (more : ∀ u ∈ w.heads, u ∈ heads) (target : t ∈ heads ∨ t ∈ w.finished) :
    Forward g { w with path := ⟨b, rest⟩ :: below, heads } := by
  have climbs := h.path
  rw [path] at climbs
  refine ⟨fun earlier c later split u hu => ?_, fun u hu => ?_, climbs.2.mono more fun _ h => h⟩
  · exact (h.finished earlier c later split u hu).imp (more u) id
  · rcases climbs.1 u hu with h' | h' | h' | h'
    · rcases List.mem_cons.mp h' with rfl | h'
      · exact .inr (target.imp id .inl)
      · exact .inl h'
    · exact .inr (.inl (more u h'))
    · exact .inr (.inr (.inl h'))
    · cases h'

/-! ## The walk stays on paths from the entry -/

structure Reached (g : Flowgraph) (w : Walk) : Prop where
  path : ∀ f ∈ w.path, g.Reachable f.block ∧ ∀ t ∈ f.ahead, t ∈ g.targets f.block
  finished : ∀ b ∈ w.finished, g.Reachable b

theorem reached_outset (g : Flowgraph) : Reached g (outset g) where
  path f hf := by
    cases List.mem_singleton.mp hf
    exact ⟨.entry, fun _ ht => ht⟩
  finished _ hb := by cases hb

theorem reached_close (h : Reached g w) (path : w.path = ⟨b, []⟩ :: below) :
    Reached g { w with path := below, finished := b :: w.finished } where
  path f hf := h.path f (by simp [path, hf])
  finished c hc := by
    rcases List.mem_cons.mp hc with rfl | hc
    · exact (h.path ⟨c, []⟩ (by simp [path])).1
    · exact h.finished c hc

theorem reached_open (h : Reached g w) (path : w.path = ⟨b, t :: rest⟩ :: below) (unseen : List BlockId) :
    Reached g { w with unseen, path := ⟨t, g.targets t⟩ :: ⟨b, rest⟩ :: below } where
  path f hf := by
    obtain ⟨reached, ahead⟩ := h.path ⟨b, t :: rest⟩ (by simp [path])
    rcases List.mem_cons.mp hf with rfl | hf
    · obtain ⟨e, he, rfl, rfl⟩ := Flowgraph.mem_targets.mp (ahead t List.mem_cons_self)
      exact ⟨.edge he reached, fun _ hu => hu⟩
    rcases List.mem_cons.mp hf with rfl | hf
    · exact ⟨reached, fun u hu => ahead u (List.mem_cons_of_mem _ hu)⟩
    · exact h.path f (by simp [path, hf])
  finished := h.finished

theorem reached_pass (h : Reached g w) (path : w.path = ⟨b, t :: rest⟩ :: below) (heads : List BlockId) :
    Reached g { w with path := ⟨b, rest⟩ :: below, heads } where
  path f hf := by
    obtain ⟨reached, ahead⟩ := h.path ⟨b, t :: rest⟩ (by simp [path])
    rcases List.mem_cons.mp hf with rfl | hf
    · exact ⟨reached, fun u hu => ahead u (List.mem_cons_of_mem _ hu)⟩
    · exact h.path f (by simp [path, hf])
  finished := h.finished

/-! ## The end of a walk -/

theorem Sound.step (h : Sound g w) (step : Step g w w') : Sound g w' := by
  cases step with
  | close path => exact sound_close h path
  | enter path unseen => exact sound_open h path unseen
  | back path seen _ => exact sound_pass h path seen _
  | pass path seen _ => exact sound_pass h path seen _

theorem Reached.step (h : Reached g w) (step : Step g w w') : Reached g w' := by
  cases step with
  | close path => exact reached_close h path
  | enter path _ => exact reached_open h path _
  | back path _ _ => exact reached_pass h path _
  | pass path _ _ => exact reached_pass h path _

theorem Forward.step (sound : Sound g w) (h : Forward g w) (step : Step g w w') : Forward g w' := by
  cases step with
  | close path => exact forward_close h path
  | enter path _ => exact forward_open h path _
  | back path _ _ => exact forward_pass h path (fun _ hu => List.mem_cons_of_mem _ hu) (.inl List.mem_cons_self)
  | @pass b t rest below path seen closed =>
    have exist := sound.known ⟨b, t :: rest⟩ (by simp [path]) t List.mem_cons_self
    have away : t ∉ w.path.map (·.block) := fun h => closed (by simpa [isOpen] using h)
    have finished := ((sound.spread exist).resolve_left seen).resolve_left away
    exact forward_pass h path (fun _ hu => hu) (.inr finished)

theorem reached_run (h : Reached g w) : Reached g (run g w) := run_invariant Reached.step h

theorem sound_run (h : Sound g w) : Sound g (run g w) ∧ (run g w).path = [] :=
  ⟨run_invariant Sound.step h, path_run g w⟩

theorem forward_run (sound : Sound g w) (h : Forward g w) : Forward g (run g w) :=
  (run_invariant (P := fun w => Sound g w ∧ Forward g w)
    (fun both step => ⟨both.1.step step, both.2.step both.1 step⟩) ⟨sound, h⟩).2

end

end Walk

namespace Flowgraph

variable {g : Flowgraph}

theorem sound_walk (g : Flowgraph) : Walk.Sound g g.walk ∧ g.walk.path = [] := Walk.sound_run (Walk.sound_outset g)

theorem forward_walk (g : Flowgraph) : Walk.Forward g g.walk :=
  Walk.forward_run (Walk.sound_outset g)
    ⟨fun earlier b later split => by simp at split, fun _ ht => .inl ht, trivial⟩

theorem nodup_reversePostorder (g : Flowgraph) : g.reversePostorder.Nodup :=
  g.sound_walk.1.nodup.of_append_right.of_append_right

theorem entry_mem_reversePostorder (g : Flowgraph) : g.entry ∈ g.reversePostorder := by
  obtain ⟨sound, path⟩ := g.sound_walk
  simpa [path, reversePostorder] using sound.entry

theorem hasBlock_of_mem_order {b : BlockId} (h : b ∈ g.reversePostorder) : g.hasBlock b = true :=
  mem_blockIds.mp (g.sound_walk.1.whole.mem_iff.mp (List.mem_append_right _ (List.mem_append_right _ h)))

/-- The blocks of the order lead only to blocks of the order. -/
theorem reversePostorder_closed {e : Edge} (he : e ∈ g.edges) (h : e.source ∈ g.reversePostorder) :
    e.target ∈ g.reversePostorder := by
  obtain ⟨sound, path⟩ := g.sound_walk
  have seen := sound.closed _ h _ (mem_targets.mpr ⟨e, he, rfl, rfl⟩)
  have := (sound.spread (hasBlock_target he)).resolve_left seen
  simpa [path, reversePostorder] using this

theorem mem_reversePostorder {b : BlockId} : b ∈ g.reversePostorder ↔ g.Reachable b := by
  constructor
  · intro h
    exact (Walk.reached_run (Walk.reached_outset g)).finished b h
  · intro h
    induction h with
    | entry => exact g.entry_mem_reversePostorder
    | edge he _ ih => exact reversePostorder_closed he ih

/-- Edges lead on in the order, except to loop heads. -/
theorem reversePostorder_forward {e : Edge} (he : e ∈ g.edges) (plain : e.target ∉ g.loopHeads)
    {earlier later : List BlockId} (split : g.reversePostorder = earlier ++ e.source :: later) :
    e.target ∈ later := by
  rcases g.forward_walk.finished earlier _ later split _ (mem_targets.mpr ⟨e, he, rfl, rfl⟩) with head | h
  · have exist := mem_blockIds.mpr (hasBlock_target he)
    exact absurd (List.mem_filter.mpr ⟨exist, by simpa using head⟩) plain
  · exact h

end Flowgraph

/-! ## The plan -/

namespace Plan

variable {g : Flowgraph} {b : BlockId}

theorem order_rank (h : b ∈ g.reversePostorder) : (Plan.of g).order[(Plan.of g).rank.get b.index]? = some b := by
  have exist : b.index < g.blocks.size := by
    simpa [Draft.hasBlock] using Flowgraph.hasBlock_of_mem_order h
  simp only [Plan.of, Slots.get_tabulate, exist, if_true, BlockId.ofIndex_index, List.idxOf?_toArray,
    List.getElem?_toArray]
  cases hi : g.reversePostorder.idxOf? b with
  | none => exact absurd h (List.idxOf?_eq_none_iff.mp hi)
  | some i =>
    obtain ⟨hlt, at_, -⟩ := List.idxOf?_eq_some_iff.mp hi
    simp [List.getElem?_eq_getElem hlt, at_]

/-- An edge that leads to no loop head leads to a later rank. -/
theorem rank_lt {e : Edge} (he : e ∈ g.edges) (plain : e.target ∉ g.loopHeads)
    (h : e.source ∈ g.reversePostorder) :
    (Plan.of g).rank.get e.source.index < (Plan.of g).rank.get e.target.index := by
  have source := order_rank h
  have target := order_rank (Flowgraph.reversePostorder_closed he h)
  generalize (Plan.of g).rank.get e.source.index = i at source ⊢
  generalize (Plan.of g).rank.get e.target.index = j at target ⊢
  rw [show (Plan.of g).order = g.reversePostorder.toArray from rfl, List.getElem?_toArray] at source target
  obtain ⟨hi, source⟩ := List.getElem?_eq_some_iff.mp source
  obtain ⟨hj, target⟩ := List.getElem?_eq_some_iff.mp target
  have split : g.reversePostorder = g.reversePostorder.take i ++ e.source :: g.reversePostorder.drop (i + 1) := by
    rw [← source, List.getElem_cons_drop, List.take_append_drop]
  have later := Flowgraph.reversePostorder_forward he plain split
  obtain ⟨k, hk, found⟩ := List.getElem_of_mem later
  rw [List.getElem_drop] at found
  have same : i + 1 + k = j := g.nodup_reversePostorder.getElem_inj_iff.mp (found.trans target.symm)
  omega

theorem rank_eq (h : b ∈ g.reversePostorder) : (Plan.of g).rank.get b.index = g.reversePostorder.idxOf b := by
  have found := order_rank h
  rw [show (Plan.of g).order = g.reversePostorder.toArray from rfl, List.getElem?_toArray] at found
  obtain ⟨hi, found⟩ := List.getElem?_eq_some_iff.mp found
  have first := g.nodup_reversePostorder.idxOf_getElem _ hi
  rw [found] at first
  exact first.symm

theorem isHead_iff : (Plan.of g).isHead.get b.index = true ↔ b ∈ g.loopHeads := by
  simp only [Plan.of, Slots.get_tabulate, BlockId.ofIndex_index]
  by_cases exist : b.index < g.blocks.size
  · simp [exist]
  · have : b ∉ g.loopHeads := fun h => exist (by
      have := Flowgraph.mem_blockIds.mp (List.mem_filter.mp h).1
      simpa [Draft.hasBlock] using this)
    simp [exist, this]

end Plan

/-! ## Operands placed before they are read -/

namespace Flowgraph

variable (g : Flowgraph)

/-- Every operand of a node of a reachable block is placed earlier in the block, or in an earlier
block of the order, or in no reachable block. -/
def InOrder : Prop :=
  ∀ b, g.Reachable b → ∀ earlier n later, g.nodesOf b = earlier ++ n :: later → ∀ m ∈ g.operandsOf n,
    m ∈ earlier ∨
      (∃ c, m ∈ g.nodesOf c ∧ g.reversePostorder.idxOf c < g.reversePostorder.idxOf b) ∨
        ∀ c, g.Reachable c → m ∉ g.nodesOf c

/-- `b` reads the value of `m` before it is computed, later in `b` or in a block that follows. -/
def ReadsLate (b : BlockId) (m : NodeId) : Prop :=
  m ∈ g.imports b ∧ ∃ c ∈ g.reversePostorder, m ∈ g.nodesOf c ∧
    (Plan.of g).rank.get b.index ≤ (Plan.of g).rank.get c.index

variable {g}

/-- Operands are in order if every import of a block is computed in an earlier block of the order,
unless it is computed in none. -/
theorem inOrder_iff_order :
    g.InOrder ↔ ∀ b ∈ g.reversePostorder, ∀ m ∈ g.imports b, ∀ c ∈ g.reversePostorder,
      m ∈ g.nodesOf c → g.reversePostorder.idxOf c < g.reversePostorder.idxOf b := by
  constructor
  · intro ordered b hb m imported c hc own
    obtain ⟨earlier, n, later, split, operand, fresh⟩ := mem_imports.mp imported
    rcases ordered b (mem_reversePostorder.mp hb) earlier n later split m operand with h | ⟨d, hd, lt⟩ | nowhere
    · exact absurd h fresh
    · rwa [block_unique own hd]
    · exact absurd own (nowhere c (mem_reversePostorder.mp hc))
  · intro forward b reachable earlier n later split m operand
    by_cases fresh : m ∈ earlier
    · exact .inl fresh
    have imported : m ∈ g.imports b := mem_imports.mpr ⟨earlier, n, later, split, operand, fresh⟩
    by_cases placed : ∃ c, g.Reachable c ∧ m ∈ g.nodesOf c
    · obtain ⟨c, reached, own⟩ := placed
      exact .inr (.inl ⟨c, own, forward b (mem_reversePostorder.mpr reachable) m imported c
        (mem_reversePostorder.mpr reached) own⟩)
    · exact .inr (.inr fun c reached own => placed ⟨c, reached, own⟩)

/-- Operands are in order if no block reads late. -/
theorem inOrder_iff : g.InOrder ↔ ∀ b ∈ g.reversePostorder, ∀ m, ¬g.ReadsLate b m := by
  rw [inOrder_iff_order]
  constructor
  · rintro forward b hb m ⟨imported, c, hc, own, le⟩
    have lt := forward b hb m imported c hc own
    rw [Plan.rank_eq hb, Plan.rank_eq hc] at le
    omega
  · intro forward b hb m imported c hc own
    refine Nat.lt_of_not_le fun le => forward b hb m ⟨imported, c, hc, own, ?_⟩
    rwa [Plan.rank_eq hb, Plan.rank_eq hc]

end Flowgraph

end FlowCheck
