/-
  FlowCheck.Proofs.Sweeps — one visit's run over the nodes of a block.

  `replay` runs the nodes of a block against one fixed table of values; a sweep looks operands up
  in a table it is writing to. For a transfer function that reads only its own operands:
  - a sweep touches the records of its own block only (`sweep_frame`), and lists the nodes whose
    value it changed (`mem_changed`);
  - what it writes depends on the values of the block's imports before the sweep, on nothing else
    in the table (`sweep_congr`);
  - if it leaves the imports as they were, it agrees with the replay against the table it leaves
    behind (`replay_sweep`).
-/

import FlowCheck.Analysis.Solver
import FlowCheck.Proofs.Graphs
import FlowCheck.Proofs.Stores

namespace FlowCheck

variable {V F σ : Type} [Domain V] [DecidableEq V]

/-- Reads no values but those of the node's own operands. -/
def Transfer.Local (g : Flowgraph) (τ : Transfer V F) : Prop :=
  ∀ (node : Node) (store : Store V) (look look' : NodeId → V),
    (∀ m ∈ node.operation.operands, look m = look' m) → τ node ⟨g, store, look⟩ = τ node ⟨g, store, look'⟩

/-- `P` holds at unreachable points, and of joins and widenings of stores it holds of. -/
structure Store.Stable (P : Store V → Prop) : Prop where
  unreachable : P .unreachable
  join : ∀ {a b}, P a → P b → P (Domain.join a b)
  widen : ∀ {a b}, P a → P b → P (Domain.widen a b)

theorem Store.stable_canonical : Store.Stable (V := V) Store.Canonical :=
  ⟨canonical_unreachable, canonical_join, canonical_widen⟩

theorem Store.Stable.joinAll {P : Store V → Prop} (hP : Store.Stable P) {l : List (Store V)} (h : ∀ s ∈ l, P s) :
    P (Domain.joinAll l) :=
  List.foldlRecOn (motive := P) l _ hP.unreachable fun _ ha b hb => hP.join ha (h b hb)

def Effect.All (P : Store V → Prop) (e : Effect V F) : Prop :=
  P e.outflow.whenTrue ∧ P e.outflow.whenFalse ∧ ∀ t, e.thrown = some t → P t

def Transfer.Keeps (P : Store V → Prop) (g : Flowgraph) (τ : Transfer V F) : Prop :=
  ∀ (node : Node) (store : Store V) (look : NodeId → V), P store → (τ node ⟨g, store, look⟩).All P

/-- As `Keeps`, of effects that report nothing but what is `fine`. -/
def Transfer.KeepsWhile (fine : F → Prop) (P : Store V → Prop) (g : Flowgraph) (τ : Transfer V F) : Prop :=
  ∀ (node : Node) (store : Store V) (look : NodeId → V), P store →
    (∀ m ∈ (τ node ⟨g, store, look⟩).facts, fine m) → (τ node ⟨g, store, look⟩).All P

omit [Domain V] [DecidableEq V] in
theorem Transfer.Keeps.keepsWhile {P : Store V → Prop} {g : Flowgraph} {τ : Transfer V F} (h : τ.Keeps P g) :
    τ.KeepsWhile (fun _ => True) P g := fun node store look hs _ => h node store look hs

def Client.Keeps (P : Store V → Prop) (g : Flowgraph) (f : Client V F σ) : Prop := ∀ m, (f.rule m).Keeps P g

def Client.KeepsWhile (fine : F → Prop) (P : Store V → Prop) (g : Flowgraph) (f : Client V F σ) : Prop :=
  ∀ m, (f.rule m).KeepsWhile fine P g

def NodeRecord.of (before : Store V) (e : Effect V F) : NodeRecord V F :=
  { before, after := e.outflow.merged, value := e.value, facts := e.facts }

def NodeRecord.All (P : Store V → Prop) (r : NodeRecord V F) : Prop := P r.before ∧ P r.after

def BlockExit.All (P : Store V → Prop) (e : BlockExit V) : Prop := ∀ k, P (e.along k)

omit [Domain V] [DecidableEq V] in
@[simp] theorem BlockExit.along_empty (k : EdgeKind) : ({} : BlockExit V).along k = .unreachable := by
  cases k <;> rfl

omit [Domain V] [DecidableEq V] in
theorem BlockExit.ext_along {a b : BlockExit V} (h : ∀ k, a.along k = b.along k) : a = b := by
  obtain ⟨normal, whenTrue, whenFalse, exceptional⟩ := a
  obtain ⟨normal', whenTrue', whenFalse', exceptional'⟩ := b
  exact BlockExit.mk.injEq .. ▸ ⟨h .normal, h .whenTrue, h .whenFalse, h .exceptional⟩

def Effect.seenBy (e : Effect V F) (handlers : Store V) : Store V :=
  match e.thrown with
  | some thrown => Domain.join handlers (Domain.join thrown e.outflow.merged)
  | none => handlers

/-- The value a table of records gives a node; top if it gives none. -/
def tableValue (t : Slots (NodeRecord V F)) (m : NodeId) : V := ((t.get m.index).value).getD Domain.top

def BlockExit.of (out : Outflow V) (handlers : Store V) : BlockExit V :=
  { normal := out.merged, whenTrue := out.whenTrue, whenFalse := out.whenFalse, exceptional := handlers }

namespace Flowgraph

variable (g : Flowgraph) (τ : Transfer V F)

/-- The effect of a node run from `store`; nothing comes of one that is not reached. -/
def effectAt (look : NodeId → V) (n : NodeId) (store : Store V) : Effect V F :=
  match store, g.node? n with
  | .unreachable, _ | _, none => { outflow := .same .unreachable }
  | store, some node => τ node { graph := g, store, valueOf := look }

def memoryAt (f : Client V F σ) (m : σ) (look : NodeId → V) (n : NodeId) (store : Store V) : σ :=
  match store, g.node? n with
  | .unreachable, _ | _, none => m
  | store, some node => (f m node { graph := g, store, valueOf := look }).2

/-- Runs `nodes` in order after `out`: what is recorded of each, and the stores that leave. -/
def replayNodes (look : NodeId → V) : List NodeId → Outflow V → Store V → List (NodeRecord V F) × BlockExit V
  | [], out, handlers => ([], .of out handlers)
  | n :: rest, out, handlers =>
    let e := g.effectAt τ look n out.merged
    let (records, exit) := replayNodes look rest e.outflow (e.seenBy handlers)
    (.of out.merged e :: records, exit)

/-- Runs the nodes of `b` from `input`, every operand looked up in the same table. -/
def replay (look : NodeId → V) (b : BlockId) (input : Store V) : List (NodeRecord V F) × BlockExit V :=
  g.replayNodes τ look (g.nodesOf b) (.same input) .unreachable

variable {g τ}

omit [Domain V] [DecidableEq V] in
theorem effectAt_unreachable (look : NodeId → V) (n : NodeId) :
    g.effectAt τ look n .unreachable = { outflow := .same .unreachable } := by
  unfold effectAt; split <;> simp_all

omit [Domain V] [DecidableEq V] in
theorem memoryAt_unreachable (f : Client V F σ) (m : σ) (look : NodeId → V) (n : NodeId) :
    g.memoryAt f m look n .unreachable = m := by
  unfold memoryAt; split <;> simp_all

omit [Domain V] [DecidableEq V] in
theorem effectAt_congr (hlocal : τ.Local g) {look look' : NodeId → V} {n : NodeId}
    (h : ∀ m ∈ g.operandsOf n, look m = look' m) (store : Store V) :
    g.effectAt τ look n store = g.effectAt τ look' n store := by
  cases store with
  | unreachable => rw [effectAt_unreachable, effectAt_unreachable]
  | known facts =>
    unfold effectAt
    cases hn : g.node? n with
    | none => rfl
    | some node => exact hlocal node _ look look' fun m hm => h m (by simpa [operandsOf, hn] using hm)

omit [Domain V] [DecidableEq V] in
theorem effectAt_allWhile {fine : F → Prop} {P : Store V → Prop} (none_ : P .unreachable) (hτ : τ.KeepsWhile fine P g)
    (look : NodeId → V) (n : NodeId) {store : Store V} (h : P store)
    (clean : ∀ m ∈ (g.effectAt τ look n store).facts, fine m) : (g.effectAt τ look n store).All P := by
  cases store with
  | unreachable =>
    rw [effectAt_unreachable]
    exact ⟨none_, none_, fun _ h => by cases h⟩
  | known facts =>
    cases hn : g.node? n with
    | none =>
      simp only [effectAt, hn]
      exact ⟨none_, none_, fun _ h => by cases h⟩
    | some node =>
      simp only [effectAt, hn] at clean ⊢
      exact hτ node _ look h clean

omit [Domain V] [DecidableEq V] in
theorem effectAt_all {P : Store V → Prop} (none_ : P .unreachable) (hτ : τ.Keeps P g) (look : NodeId → V)
    (n : NodeId) {store : Store V} (h : P store) : (g.effectAt τ look n store).All P :=
  effectAt_allWhile none_ hτ.keepsWhile look n h fun _ _ => trivial

theorem replayNodes_congr (hlocal : τ.Local g) {look look' : NodeId → V} {l : List NodeId}
    (h : ∀ n ∈ l, ∀ m ∈ g.operandsOf n, look m = look' m) (out : Outflow V) (handlers : Store V) :
    g.replayNodes τ look l out handlers = g.replayNodes τ look' l out handlers := by
  induction l generalizing out handlers with
  | nil => rfl
  | cons n l ih =>
    have e := effectAt_congr hlocal (h n List.mem_cons_self) out.merged
    simp only [replayNodes, e]
    rw [ih fun k hk => h k (List.mem_cons_of_mem _ hk)]

end Flowgraph

section

variable {P : Store V → Prop} (hP : Store.Stable P)

include hP

theorem Store.Stable.merged {out : Outflow V} (ht : P out.whenTrue) (hf : P out.whenFalse) : P out.merged := by
  cases out with
  | same s => exact ht
  | split t f => exact hP.join ht hf

theorem Store.Stable.seenBy {e : Effect V F} (he : e.All P) {handlers : Store V} (h : P handlers) :
    P (e.seenBy handlers) := by
  unfold Effect.seenBy
  split
  · rename_i thrown ht
    exact hP.join h (hP.join (he.2.2 thrown ht) (hP.merged he.1 he.2.1))
  · exact h

end

namespace Solver

def transfer (p : Solver V F) : Transfer V F := p.client.rule ()

variable (p : Solver V F σ)

def nextEffect (w : Sweep V F σ) (n : NodeId) : Effect V F :=
  p.plan.graph.effectAt (p.client.rule w.memory) (tableValue w.nodes) n w.outflow.merged

def nextMemory (w : Sweep V F σ) (n : NodeId) : σ :=
  p.plan.graph.memoryAt p.client w.memory (tableValue w.nodes) n w.outflow.merged

variable {p}

theorem sweepNode_eq {n : NodeId} {node : Node} (hn : p.plan.graph.node? n = some node) (w : Sweep V F σ) :
    p.sweepNode w n =
      { memory := p.nextMemory w n
        nodes := w.nodes.set n.index (.of w.outflow.merged (p.nextEffect w n))
        outflow := (p.nextEffect w n).outflow
        exceptional := (p.nextEffect w n).seenBy w.exceptional
        changed := if (w.nodes.get n.index).value = (p.nextEffect w n).value then w.changed else n :: w.changed
        transfers := w.transfers + if w.outflow.merged.isReachable then 1 else 0 } := by
  unfold sweepNode nextEffect nextMemory
  cases hm : w.outflow.merged with
  | unreachable =>
    rw [Flowgraph.effectAt_unreachable, Flowgraph.memoryAt_unreachable]
    cases hv : (w.nodes.get n.index).value <;> rfl
  | known facts =>
    simp only [hn]
    unfold Flowgraph.effectAt Flowgraph.memoryAt
    simp only [hn]
    rfl

/-! ## Which records a sweep writes -/

theorem get_sweepNode_ne {w : Sweep V F σ} {n k : NodeId} (h : k ≠ n) :
    (p.sweepNode w n).nodes.get k.index = w.nodes.get k.index := by
  have ne : n.index ≠ k.index := fun e => h (NodeId.index_inj.mp e).symm
  unfold sweepNode
  split <;> exact Slots.get_set_ne _ _ ne

theorem size_sweepNode (w : Sweep V F σ) (n : NodeId) : (p.sweepNode w n).nodes.size = w.nodes.size := by
  unfold sweepNode
  split <;> exact Slots.size_set _ _ _

theorem get_foldl_ne {l : List NodeId} {k : NodeId} (h : k ∉ l) (w : Sweep V F σ) :
    (l.foldl p.sweepNode w).nodes.get k.index = w.nodes.get k.index := by
  induction l generalizing w with
  | nil => rfl
  | cons n l ih =>
    have ne : k ≠ n := fun e => h (by simp [e])
    rw [List.foldl_cons, ih (fun hk => h (List.mem_cons_of_mem _ hk)), get_sweepNode_ne ne]

theorem size_foldl (l : List NodeId) (w : Sweep V F σ) : (l.foldl p.sweepNode w).nodes.size = w.nodes.size := by
  induction l generalizing w with
  | nil => rfl
  | cons n l ih => rw [List.foldl_cons, ih, size_sweepNode]

/-- A list of different nodes that exist, and a table with a slot for each of them. -/
structure Ready (g : Flowgraph) (l : List NodeId) (t : Slots (NodeRecord V F)) : Prop where
  nodup : l.Nodup
  exist : ∀ n ∈ l, ∃ node, g.node? n = some node
  size : t.size = g.nodes.size

omit [Domain V] [DecidableEq V] in
theorem ready_nodesOf {g : Flowgraph} {t : Slots (NodeRecord V F)} (size : t.size = g.nodes.size) (b : BlockId) :
    Ready g (g.nodesOf b) t where
  nodup := g.nodup_nodesOf b
  exist _ hn := (g.node_of_mem hn).imp fun _ h => h.1
  size := size

section

variable {w : Sweep V F σ} {n : NodeId} {l : List NodeId}

theorem Ready.tail (h : Ready p.plan.graph (n :: l) w.nodes) : Ready p.plan.graph l (p.sweepNode w n).nodes where
  nodup := (List.nodup_cons.mp h.nodup).2
  exist k hk := h.exist k (List.mem_cons_of_mem _ hk)
  size := by rw [size_sweepNode, h.size]

omit [Domain V] [DecidableEq V] in
theorem Ready.head_eq (h : Ready p.plan.graph (n :: l) w.nodes) :
    ∃ node, p.plan.graph.node? n = some node := h.exist n List.mem_cons_self

theorem Ready.get_head (h : Ready p.plan.graph (n :: l) w.nodes) :
    (p.sweepNode w n).nodes.get n.index = .of w.outflow.merged (p.nextEffect w n) := by
  obtain ⟨node, hn⟩ := h.head_eq
  rw [sweepNode_eq hn]
  refine Slots.get_set_same _ _ ?_
  rw [h.size]
  exact (Array.getElem?_eq_some_iff.mp hn).1

/-- The record of a node is the one written when it was run. -/
theorem Ready.get_foldl_head (h : Ready p.plan.graph (n :: l) w.nodes) :
    ((n :: l).foldl p.sweepNode w).nodes.get n.index = .of w.outflow.merged (p.nextEffect w n) := by
  rw [List.foldl_cons, get_foldl_ne (List.nodup_cons.mp h.nodup).1, h.get_head]

end

/-- What is recorded of a node is the effect it had on the values of its turn. -/
theorem exists_effect_foldl {l : List NodeId} {w : Sweep V F σ} (h : Ready p.plan.graph l w.nodes) {n : NodeId}
    (hn : n ∈ l) :
    ∃ m look, (l.foldl p.sweepNode w).nodes.get n.index =
      .of ((l.foldl p.sweepNode w).nodes.get n.index).before
        (p.plan.graph.effectAt (p.client.rule m) look n ((l.foldl p.sweepNode w).nodes.get n.index).before) := by
  induction l generalizing w with
  | nil => cases hn
  | cons k l ih =>
    by_cases e : n = k
    · subst e
      rw [h.get_foldl_head]
      exact ⟨w.memory, tableValue w.nodes, rfl⟩
    · exact ih h.tail ((List.mem_cons.mp hn).resolve_left e)

theorem mem_changed_foldl {l : List NodeId} {w : Sweep V F σ} (h : Ready p.plan.graph l w.nodes) (m : NodeId) :
    m ∈ (l.foldl p.sweepNode w).changed ↔
      m ∈ w.changed ∨
        m ∈ l ∧ (w.nodes.get m.index).value ≠ ((l.foldl p.sweepNode w).nodes.get m.index).value := by
  induction l generalizing w with
  | nil => simp
  | cons n l ih =>
    have head := h.get_foldl_head
    obtain ⟨node, hn⟩ := h.head_eq
    have fresh := (List.nodup_cons.mp h.nodup).1
    rw [List.foldl_cons] at head ⊢
    rw [ih h.tail]
    by_cases e : m = n
    · subst e
      rw [head, sweepNode_eq hn]
      simp only [fresh, false_and, or_false, List.mem_cons_self, true_and, NodeRecord.of]
      by_cases same : (w.nodes.get m.index).value = (p.nextEffect w m).value <;> simp [same]
    · rw [get_sweepNode_ne e, sweepNode_eq hn]
      by_cases same : (w.nodes.get n.index).value = (p.nextEffect w n).value <;> simp [same, e]

/-- A node counts as transferred if its record says that it was reached. -/
theorem transfers_foldl {l : List NodeId} {w : Sweep V F σ} (h : Ready p.plan.graph l w.nodes) :
    (l.foldl p.sweepNode w).transfers =
      w.transfers + l.countP fun n => ((l.foldl p.sweepNode w).nodes.get n.index).before.isReachable := by
  induction l generalizing w with
  | nil => rfl
  | cons n l ih =>
    obtain ⟨node, hn⟩ := h.head_eq
    have head := congrArg NodeRecord.before h.get_foldl_head
    have counted : (p.sweepNode w n).transfers = w.transfers + if w.outflow.merged.isReachable then 1 else 0 := by
      rw [sweepNode_eq hn]
    rw [List.countP_cons, head, List.foldl_cons, ih h.tail, counted]
    by_cases live : w.outflow.merged.isReachable = true
    · simp only [NodeRecord.of, live, if_true]
      omega
    · simp only [NodeRecord.of, live, if_false, Bool.false_eq_true]
      omega

/-! ## Sweeps and replays -/

section

variable {p : Solver V F}

theorem nextEffect_eq (w : Sweep V F) (n : NodeId) :
    p.nextEffect w n = p.plan.graph.effectAt p.transfer (tableValue w.nodes) n w.outflow.merged := rfl

theorem foldl_replay (hlocal : p.transfer.Local p.plan.graph) {look : NodeId → V} (earlier : List NodeId)
    {l : List NodeId} {w : Sweep V F} (h : Ready p.plan.graph l w.nodes) (apart : ∀ m ∈ earlier, m ∉ l)
    (outside : ∀ m ∈ p.plan.graph.outsideOperands earlier l, look m = tableValue w.nodes m)
    (inside : ∀ m ∈ earlier, look m = tableValue w.nodes m)
    (final : ∀ n ∈ l, look n = tableValue (l.foldl p.sweepNode w).nodes n) :
    p.plan.graph.replayNodes p.transfer look l w.outflow w.exceptional =
      (l.map fun n => (l.foldl p.sweepNode w).nodes.get n.index, (l.foldl p.sweepNode w).exit) := by
  induction l generalizing w earlier with
  | nil => rfl
  | cons n l ih =>
    have head := h.get_foldl_head
    obtain ⟨node, hn⟩ := h.head_eq
    have fresh := (List.nodup_cons.mp h.nodup).1
    have effect : p.plan.graph.effectAt p.transfer look n w.outflow.merged = p.nextEffect w n := by
      refine Flowgraph.effectAt_congr hlocal (fun m hm => ?_) _
      by_cases he : m ∈ earlier
      · exact inside m he
      · refine outside m (List.mem_append_left _ (List.mem_filter.mpr ⟨hm, by simpa using he⟩))
    have later : ∀ m, m ≠ n → tableValue (p.sweepNode w n).nodes m = tableValue w.nodes m := fun m hm => by
      unfold tableValue
      rw [get_sweepNode_ne hm]
    have rest := ih (n :: earlier) h.tail ?_ ?_ ?_ fun k hk => final k (List.mem_cons_of_mem _ hk)
    · rw [List.foldl_cons] at head
      rw [sweepNode_eq hn] at rest head
      simp only [Flowgraph.replayNodes, effect, rest, List.map_cons, List.foldl_cons, sweepNode_eq hn, head]
    · intro m hm
      rcases List.mem_cons.mp hm with rfl | hm
      · exact fresh
      · exact fun hl => apart m hm (List.mem_cons_of_mem _ hl)
    · intro m hm
      rw [later m fun e => (Flowgraph.outsideOperands_spec hm).1 (by simp [e])]
      exact outside m (List.mem_append_right _ hm)
    · intro m hm
      rcases List.mem_cons.mp hm with rfl | hm
      · rw [final m List.mem_cons_self, tableValue, List.foldl_cons, get_foldl_ne fresh]
        rfl
      · rw [later m fun e => apart m hm (by simp [e])]
        exact inside m hm

/-- What a run over `l` writes and lets out depends on the values of outside operands only. -/
theorem foldl_congr (hlocal : p.transfer.Local p.plan.graph) (earlier : List NodeId) {l : List NodeId}
    {w w' : Sweep V F}
    (h : Ready p.plan.graph l w.nodes) (h' : Ready p.plan.graph l w'.nodes)
    (outflow : w.outflow = w'.outflow) (exceptional : w.exceptional = w'.exceptional)
    (outside : ∀ m ∈ p.plan.graph.outsideOperands earlier l, tableValue w.nodes m = tableValue w'.nodes m)
    (inside : ∀ m ∈ earlier, tableValue w.nodes m = tableValue w'.nodes m) :
    (∀ n ∈ l, (l.foldl p.sweepNode w).nodes.get n.index = (l.foldl p.sweepNode w').nodes.get n.index) ∧
      (l.foldl p.sweepNode w).exit = (l.foldl p.sweepNode w').exit := by
  induction l generalizing w w' earlier with
  | nil => exact ⟨fun _ hn => (List.not_mem_nil hn).elim, by simp [Sweep.exit, outflow, exceptional]⟩
  | cons n l ih =>
    have head := h.get_foldl_head
    have head' := h'.get_foldl_head
    obtain ⟨node, hn⟩ := h.head_eq
    have effect : p.nextEffect w n = p.nextEffect w' n := by
      unfold nextEffect
      rw [outflow]
      refine Flowgraph.effectAt_congr hlocal (fun m hm => ?_) _
      by_cases he : m ∈ earlier
      · exact inside m he
      · exact outside m (List.mem_append_left _ (List.mem_filter.mpr ⟨hm, by simpa using he⟩))
    have rest := ih (n :: earlier) h.tail h'.tail ?_ ?_ ?_ ?_
    · refine ⟨fun k hk => ?_, rest.2⟩
      rcases List.mem_cons.mp hk with rfl | hk
      · rw [head, head', effect, outflow]
      · exact rest.1 k hk
    · rw [sweepNode_eq hn, sweepNode_eq hn, effect]
    · rw [sweepNode_eq hn, sweepNode_eq hn, effect, exceptional]
    · intro m hm
      have ne : m ≠ n := fun e => (Flowgraph.outsideOperands_spec hm).1 (by simp [e])
      have := outside m (List.mem_append_right _ hm)
      simpa only [tableValue, get_sweepNode_ne ne] using this
    · intro m hm
      by_cases e : m = n
      · subst e
        simp only [tableValue, h.get_head, h'.get_head, NodeRecord.of, effect]
      · have := inside m ((List.mem_cons.mp hm).resolve_left e)
        simpa only [tableValue, get_sweepNode_ne e] using this

end

/-! ## A whole block -/

section

variable {b : BlockId} {input : Store V} {t : Slots (NodeRecord V F)} {m₀ : σ}

theorem sweep_frame {n : NodeId} (h : n ∉ p.plan.graph.nodesOf b) :
    (p.sweep b input t m₀).nodes.get n.index = t.get n.index := get_foldl_ne h _

theorem size_sweep : (p.sweep b input t m₀).nodes.size = t.size := size_foldl _ _

variable (input m₀) in
theorem exists_effect_sweep (size : t.size = p.plan.graph.nodes.size) {n : NodeId} (hn : n ∈ p.plan.graph.nodesOf b) :
    ∃ m look, (p.sweep b input t m₀).nodes.get n.index =
      .of ((p.sweep b input t m₀).nodes.get n.index).before
        (p.plan.graph.effectAt (p.client.rule m) look n ((p.sweep b input t m₀).nodes.get n.index).before) :=
  exists_effect_foldl (w := { memory := m₀, nodes := t, outflow := .same input }) (ready_nodesOf size b) hn

theorem mem_changed (size : t.size = p.plan.graph.nodes.size) (m : NodeId) :
    m ∈ (p.sweep b input t m₀).changed ↔
      m ∈ p.plan.graph.nodesOf b ∧ (t.get m.index).value ≠ ((p.sweep b input t m₀).nodes.get m.index).value := by
  have := mem_changed_foldl (p := p) (w := { memory := m₀, nodes := t, outflow := .same input }) (ready_nodesOf size b) m
  simpa [sweep] using this

theorem transfers_sweep (size : t.size = p.plan.graph.nodes.size) :
    (p.sweep b input t m₀).transfers =
      (p.plan.graph.nodesOf b).countP fun n => ((p.sweep b input t m₀).nodes.get n.index).before.isReachable := by
  have := transfers_foldl (p := p) (w := { memory := m₀, nodes := t, outflow := .same input }) (ready_nodesOf size b)
  rwa [Nat.zero_add] at this

/-- A sweep that leaves the imports of its block as they were agrees with the replay against the
table it leaves behind. -/
theorem replay_sweep {p : Solver V F} (hlocal : p.transfer.Local p.plan.graph) (size : t.size = p.plan.graph.nodes.size)
    (h : ∀ m ∈ p.plan.graph.imports b, m ∉ (p.sweep b input t ()).changed) :
    p.plan.graph.replay p.transfer (tableValue (p.sweep b input t ()).nodes) b input =
      ((p.plan.graph.nodesOf b).map fun n => (p.sweep b input t ()).nodes.get n.index,
        (p.sweep b input t ()).exit) := by
  refine foldl_replay (w := { memory := (), nodes := t, outflow := .same input }) hlocal []
    (ready_nodesOf size b) (fun _ h => by cases h) (fun m hm => ?_) (fun _ h => by cases h) fun _ _ => rfl
  have same : ((p.sweep b input t ()).nodes.get m.index).value = (t.get m.index).value := by
    by_cases hb : m ∈ p.plan.graph.nodesOf b
    · have := h m hm
      rw [mem_changed size] at this
      simpa [hb, eq_comm] using this
    · rw [sweep_frame hb]
  simp only [tableValue, same]

/-- Two sweeps of a block from one input write and let out the same, if they start from tables
that agree on the imports. -/
theorem sweep_congr {p : Solver V F} (hlocal : p.transfer.Local p.plan.graph) {t' : Slots (NodeRecord V F)}
    (size : t.size = p.plan.graph.nodes.size) (size' : t'.size = p.plan.graph.nodes.size)
    (h : ∀ m ∈ p.plan.graph.imports b, tableValue t m = tableValue t' m) :
    (∀ n ∈ p.plan.graph.nodesOf b,
        (p.sweep b input t ()).nodes.get n.index = (p.sweep b input t' ()).nodes.get n.index) ∧
      (p.sweep b input t ()).exit = (p.sweep b input t' ()).exit :=
  foldl_congr hlocal [] (ready_nodesOf size b) (ready_nodesOf size' b) rfl rfl h
    fun _ h => by cases h

end

/-! ## The stores of a sweep -/

structure Sweep.All (P : Store V → Prop) (w : Sweep V F σ) : Prop where
  nodes : ∀ n : NodeId, (w.nodes.get n.index).All P
  whenTrue : P w.outflow.whenTrue
  whenFalse : P w.outflow.whenFalse
  exceptional : P w.exceptional

section

variable {fine : F → Prop} {P : Store V → Prop} (hP : Store.Stable P) (hτ : p.client.KeepsWhile fine P p.plan.graph)

include hP hτ

theorem all_foldl {l : List NodeId} {w : Sweep V F σ} (ready : Ready p.plan.graph l w.nodes) (h : w.All P)
    (clean : ∀ n ∈ l, ∀ m ∈ ((l.foldl p.sweepNode w).nodes.get n.index).facts, fine m) :
    (l.foldl p.sweepNode w).All P := by
  induction l generalizing w with
  | nil => exact h
  | cons n l ih =>
    obtain ⟨node, hn⟩ := ready.head_eq
    have before := hP.merged h.whenTrue h.whenFalse
    have own : ∀ m ∈ (p.nextEffect w n).facts, fine m := fun m hm =>
      clean n List.mem_cons_self m (by rw [ready.get_foldl_head]; exact hm)
    have effect : (p.nextEffect w n).All P := Flowgraph.effectAt_allWhile hP.unreachable (hτ _) _ n before own
    refine ih ready.tail ⟨fun k => ?_, ?_, ?_, ?_⟩ fun k hk => clean k (List.mem_cons_of_mem _ hk)
    · by_cases e : k = n
      · rw [e, ready.get_head]
        exact ⟨before, hP.merged effect.1 effect.2.1⟩
      · rw [get_sweepNode_ne e]
        exact h.nodes k
    · rw [sweepNode_eq hn]; exact effect.1
    · rw [sweepNode_eq hn]; exact effect.2.1
    · rw [sweepNode_eq hn]; exact hP.seenBy effect h.exceptional

theorem all_sweep {b : BlockId} {input : Store V} {t : Slots (NodeRecord V F)} {m₀ : σ}
    (size : t.size = p.plan.graph.nodes.size) (hinput : P input) (ht : ∀ n : NodeId, (t.get n.index).All P)
    (clean : ∀ n : NodeId, ∀ m ∈ ((p.sweep b input t m₀).nodes.get n.index).facts, fine m) :
    (∀ n : NodeId, ((p.sweep b input t m₀).nodes.get n.index).All P) ∧ (p.sweep b input t m₀).exit.All P := by
  have := all_foldl (w := { memory := m₀, nodes := t, outflow := .same input }) hP hτ (ready_nodesOf size b)
    ⟨ht, hinput, hinput, hP.unreachable⟩ fun n _ => clean n
  refine ⟨this.nodes, fun k => ?_⟩
  cases k
  · exact hP.merged this.whenTrue this.whenFalse
  · exact this.whenTrue
  · exact this.whenFalse
  · exact this.exceptional

end

end Solver

end FlowCheck
