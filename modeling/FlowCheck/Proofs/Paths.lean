/-
  FlowCheck.Proofs.Paths — a converged analysis covers every path.

  An execution goes along edges from the entry and runs the nodes of each block on its way. It
  carries one store and the values computed so far (`Point`), and joins nothing, widens nothing and
  forgets nothing. It leaves a block with the store for the edge it takes; for a handler that is
  what the handler sees of one node that threw.

  Suppose the transfer function is monotone, and the execution reads no node it has not run
  (`Informed`): nodes without a value count as anything, so an analysis may well know more of a node
  the execution has yet to run. Then the stores and values of the execution are below those of the
  analysis wherever it gets to (`Arrives.covered`).

  Inside a block this is a simulation. The analysis has a replay of the block (`SolvedAt`), and the
  execution follows it node by node with smaller stores (`Follows.step`), or has come to a point
  that is not reachable. Between blocks, the store of an edge is one of those joined at its target,
  and a widened input is above that join.
-/

import FlowCheck.Proofs.Contracts
import FlowCheck.Proofs.FixedPoint
import Mathlib.Algebra.Module.Submodule.Lattice

namespace FlowCheck

variable {V F : Type} [Domain V] [DecidableEq V]

/-! ## Monotone transfer functions -/

/-- The stores and the value of one effect are below those of another, and what throws in the
first throws in the second. -/
structure Effect.Below (e e' : Effect V F) : Prop where
  whenTrue : Domain.below e.outflow.whenTrue e'.outflow.whenTrue = true
  whenFalse : Domain.below e.outflow.whenFalse e'.outflow.whenFalse = true
  thrown : ∀ t, e.thrown = some t → ∃ t', e'.thrown = some t' ∧ Domain.below t t' = true
  value : Domain.below (e.value.getD Domain.top) (e'.value.getD Domain.top) = true

def Transfer.Monotone (g : Flowgraph) (τ : Transfer V F) : Prop :=
  ∀ n node, g.node? n = some node → ∀ (store store' : Store V) (look look' : NodeId → V),
    store.isReachable = true → store.Canonical → store'.Canonical → Domain.below store store' = true →
      (∀ m ∈ node.operation.operands, Domain.below (look m) (look' m) = true) →
        (τ node ⟨g, store, look⟩).Below (τ node ⟨g, store', look'⟩)

/-! ## Executions -/

/-- What an execution has computed of each node: nothing yet, or its value, if it has one. -/
abbrev Computed (V : Type) := NodeId → Option (Option V)

structure Point (V : Type) where
  /-- The stores after the node run last. -/
  out : Outflow V
  computed : Computed V

namespace Point

def enter (store : Store V) (computed : Computed V) : Point V := ⟨.same store, computed⟩

def valueOf (x : Point V) (m : NodeId) : V := (x.computed m).join.getD Domain.top

end Point

namespace Flowgraph

variable (g : Flowgraph) (τ : Transfer V F)

def effectAfter (x : Point V) (n : NodeId) : Effect V F := g.effectAt τ x.valueOf n x.out.merged

/-- Runs the next node. Nothing is computed where the execution does not get to. -/
def advance (x : Point V) (n : NodeId) : Point V where
  out := (g.effectAfter τ x n).outflow
  computed m := if m = n ∧ x.out.merged.isReachable = true then some (g.effectAfter τ x n).value else x.computed m

def execute (x : Point V) (l : List NodeId) : Point V := l.foldl (g.advance τ) x

/-- Every operand that is read when the nodes are run has been computed by then. -/
def Informed (x : Point V) : List NodeId → Prop
  | [] => True
  | n :: rest =>
    (x.out.merged.isReachable = true → ∀ m ∈ g.operandsOf n, (x.computed m).isSome = true) ∧
      Informed (g.advance τ x n) rest

instance decidableInformed : (x : Point V) → (l : List NodeId) → Decidable (g.Informed τ x l)
  | _, [] => .isTrue trivial
  | x, n :: rest => @instDecidableAnd _ _ inferInstance (decidableInformed (g.advance τ x n) rest)

/-- From `x`, at its start, a block can be left along an edge of this kind with this store. -/
inductive Leaves (b : BlockId) (x : Point V) : EdgeKind → Store V → Computed V → Prop where
  | end (k : EdgeKind) : k ≠ .exceptional → g.Informed τ x (g.nodesOf b) →
      Leaves b x k ((BlockExit.of (g.execute τ x (g.nodesOf b)).out .unreachable).along k)
        (g.execute τ x (g.nodesOf b)).computed
  /-- A node throws; the handler is entered then, or once more nodes have been run. -/
  | throw (earlier : List NodeId) (n : NodeId) (more rest : List NodeId) (thrown : Store V) :
      g.nodesOf b = earlier ++ n :: (more ++ rest) → g.Informed τ x (earlier ++ n :: more) →
      (g.effectAfter τ (g.execute τ x earlier) n).thrown = some thrown →
      Leaves b x .exceptional (Domain.join thrown (g.execute τ x (earlier ++ [n])).out.merged)
        (g.execute τ x (earlier ++ n :: more)).computed

/-- Some path from the entry leads an execution to the block, with this store and these values. -/
inductive Arrives (initial : Store V) : BlockId → Store V → Computed V → Prop where
  | entry : Arrives initial g.entry initial fun _ => none
  | edge {e : Edge} {store store' : Store V} {computed computed' : Computed V} : e ∈ g.edges →
      Arrives initial e.source store computed →
      g.Leaves τ e.source (.enter store computed) e.kind store' computed' →
      Arrives initial e.target store' computed'

end Flowgraph

/-! ## One node -/

section

variable [LawfulDomain V] {g : Flowgraph} {τ : Transfer V F}

theorem Outflow.whenTrue_below_merged {out : Outflow V} (ht : out.whenTrue.Canonical) (hf : out.whenFalse.Canonical) :
    Domain.below out.whenTrue out.merged = true := by
  cases out with
  | same s => exact Store.below_refl ht
  | split t f => exact Store.below_join_left ht hf

theorem Outflow.whenFalse_below_merged {out : Outflow V} (ht : out.whenTrue.Canonical) (hf : out.whenFalse.Canonical) :
    Domain.below out.whenFalse out.merged = true := by
  cases out with
  | same s => exact Store.below_refl ht
  | split t f => exact Store.below_join_right ht hf

theorem Outflow.merged_below {out : Outflow V} {s : Store V} (hs : s.Canonical)
    (ht : Domain.below out.whenTrue s = true) (hf : Domain.below out.whenFalse s = true) :
    Domain.below out.merged s = true := by
  cases out with
  | same t => exact ht
  | split t f => exact Store.join_below hs ht hf

/-- The merged store grows with the stores of the two branches. -/
theorem Outflow.merged_mono {out out' : Outflow V} (ht : out'.whenTrue.Canonical) (hf : out'.whenFalse.Canonical)
    (whenTrue : Domain.below out.whenTrue out'.whenTrue = true)
    (whenFalse : Domain.below out.whenFalse out'.whenFalse = true) :
    Domain.below out.merged out'.merged = true := by
  have merged := Store.stable_canonical.merged ht hf
  exact merged_below merged (Store.below_trans ht merged whenTrue (whenTrue_below_merged ht hf))
    (Store.below_trans hf merged whenFalse (whenFalse_below_merged ht hf))

theorem effectAt_below (monotone : τ.Monotone g) {look look' : NodeId → V} {n : NodeId} {s s' : Store V}
    (live : s.isReachable = true) (hs : s.Canonical) (hs' : s'.Canonical) (below : Domain.below s s' = true)
    (operands : ∀ m ∈ g.operandsOf n, Domain.below (look m) (look' m) = true) :
    (g.effectAt τ look n s).Below (g.effectAt τ look' n s') := by
  have live' := ((Store.below_iff_valueOf hs').mp below).1 live
  obtain ⟨m, rfl⟩ := Store.isReachable_iff.mp live
  obtain ⟨m', rfl⟩ := Store.isReachable_iff.mp live'
  unfold Flowgraph.effectAt
  cases found : g.node? n with
  | none => exact ⟨rfl, rfl, fun _ ht => (by cases ht), below_self _⟩
  | some node =>
    refine monotone n node found _ _ look look' live hs hs' below fun m hm => operands m ?_
    rwa [Flowgraph.operandsOf, found]

end

/-! ## Following a replay -/

def Point.Within (x : Point V) (look : NodeId → V) : Prop :=
  ∀ m v, x.computed m = some v → Domain.below (v.getD Domain.top) (look m) = true

structure Replays (g : Flowgraph) (τ : Transfer V F) (r : Result V F) (exit : BlockExit V) (rest : List NodeId)
    (out : Outflow V) (handlers : Store V) : Prop where
  replay : g.replayNodes τ r.valueOf rest out handlers = (rest.map r.node, exit)
  whenTrue : out.whenTrue.Canonical
  whenFalse : out.whenFalse.Canonical
  handlers : handlers.Canonical

/-- An execution with `rest` of its block ahead is below a replay, or has got stuck. -/
structure Follows (g : Flowgraph) (τ : Transfer V F) (r : Result V F) (exit : BlockExit V) (x : Point V)
    (rest : List NodeId) : Prop where
  whenTrue : x.out.whenTrue.Canonical
  whenFalse : x.out.whenFalse.Canonical
  within : x.Within r.valueOf
  above : x.out = .same .unreachable ∨ ∃ out handlers, Replays g τ r exit rest out handlers ∧
    Domain.below x.out.whenTrue out.whenTrue = true ∧ Domain.below x.out.whenFalse out.whenFalse = true

section

variable [LawfulDomain V] {g : Flowgraph} {τ : Transfer V F} {r : Result V F} {exit : BlockExit V}
  {x : Point V} {n : NodeId} {rest : List NodeId} {out : Outflow V} {handlers : Store V}

omit [LawfulDomain V] in
theorem Replays.kept (h : Replays g τ r exit rest out handlers) (hτ : τ.Keeps Store.Canonical g) (n : NodeId) :
    (g.effectAt τ r.valueOf n out.merged).All Store.Canonical :=
  Flowgraph.effectAt_all Store.canonical_unreachable hτ r.valueOf n
    (Store.stable_canonical.merged h.whenTrue h.whenFalse)

omit [LawfulDomain V] in
theorem Follows.kept (f : Follows g τ r exit x rest) (hτ : τ.Keeps Store.Canonical g) (n : NodeId) :
    (g.effectAfter τ x n).All Store.Canonical :=
  Flowgraph.effectAt_all Store.canonical_unreachable hτ x.valueOf n
    (Store.stable_canonical.merged f.whenTrue f.whenFalse)

omit [LawfulDomain V] in
theorem Replays.step (h : Replays g τ r exit (n :: rest) out handlers) (hτ : τ.Keeps Store.Canonical g) :
    let e := g.effectAt τ r.valueOf n out.merged
    r.node n = .of out.merged e ∧ Replays g τ r exit rest e.outflow (e.seenBy handlers) := by
  intro e
  have kept : e.All Store.Canonical := h.kept hτ n
  obtain ⟨records, left⟩ := Prod.mk.injEq .. ▸ h.replay
  obtain ⟨head, tail⟩ := List.cons.inj records
  exact ⟨head.symm, Prod.ext tail left, kept.1, kept.2.1, Store.stable_canonical.seenBy kept h.handlers⟩

/-- What handlers have seen, they see when the block is left. -/
theorem Replays.handlers_below (h : Replays g τ r exit rest out handlers) (hτ : τ.Keeps Store.Canonical g)
    (canonical : exit.exceptional.Canonical) : Domain.below handlers exit.exceptional = true := by
  induction rest generalizing out handlers with
  | nil =>
    have left : BlockExit.of out handlers = exit := congrArg Prod.snd h.replay
    rw [← left]
    exact Store.below_refl h.handlers
  | cons n rest ih =>
    obtain ⟨-, next⟩ := h.step hτ
    refine Store.below_trans next.handlers canonical ?_ (ih next)
    unfold Effect.seenBy
    split
    · rename_i t ht
      have kept := h.kept hτ n
      exact Store.below_join_left h.handlers
        (Store.canonical_join (kept.2.2 t ht) (Store.stable_canonical.merged kept.1 kept.2.1))
    · exact Store.below_refl h.handlers

/-- So do they what they have seen of a node that throws. -/
theorem Replays.thrown_below (h : Replays g τ r exit (n :: rest) out handlers) (hτ : τ.Keeps Store.Canonical g)
    (canonical : exit.exceptional.Canonical) {e : Effect V F} (effect : e = g.effectAt τ r.valueOf n out.merged)
    {t : Store V} (ht : e.thrown = some t) :
    (Domain.join t e.outflow.merged).Canonical ∧
      Domain.below (Domain.join t e.outflow.merged) exit.exceptional = true := by
  obtain ⟨-, next⟩ := h.step hτ
  rw [← effect] at next
  have kept : e.All Store.Canonical := effect ▸ h.kept hτ n
  have both := Store.canonical_join (kept.2.2 t ht) (Store.stable_canonical.merged kept.1 kept.2.1)
  refine ⟨both, Store.below_trans next.handlers canonical ?_ (next.handlers_below hτ canonical)⟩
  rw [Effect.seenBy, ht]
  exact Store.below_join_right h.handlers both

omit [LawfulDomain V] in
/-- What is computed stays below a table if the value of the next node does. -/
theorem Point.Within.advance {look : NodeId → V} (within : x.Within look)
    (value : x.out.merged.isReachable = true →
      Domain.below ((g.effectAfter τ x n).value.getD Domain.top) (look n) = true) :
    (g.advance τ x n).Within look := by
  intro m v hv
  unfold Flowgraph.advance at hv
  dsimp only at hv
  split at hv
  · rename_i here
    obtain ⟨rfl, live⟩ := here
    cases hv
    exact value live
  · exact within m v hv

omit [LawfulDomain V] in
theorem advance_stuck (stuck : x.out.merged = .unreachable) :
    g.advance τ x n = ⟨.same .unreachable, x.computed⟩ ∧ (g.effectAfter τ x n).thrown = none := by
  have effect : g.effectAfter τ x n = { outflow := .same .unreachable } := by
    rw [Flowgraph.effectAfter, stuck, Flowgraph.effectAt_unreachable]
  refine ⟨?_, by rw [effect]⟩
  simp [Flowgraph.advance, effect, stuck]

/-- The effect a node has in an execution is below the one it has in the replay. -/
theorem Replays.effect_below (h : Replays g τ r exit (n :: rest) out handlers) (monotone : τ.Monotone g)
    (live : x.out.merged.isReachable = true) (canonical : x.out.merged.Canonical) (within : x.Within r.valueOf)
    (below : Domain.below x.out.merged out.merged = true)
    (informed : ∀ m ∈ g.operandsOf n, (x.computed m).isSome = true) :
    (g.effectAfter τ x n).Below (g.effectAt τ r.valueOf n out.merged) := by
  have above := Store.stable_canonical.merged h.whenTrue h.whenFalse
  refine effectAt_below monotone live canonical above below fun m hm => ?_
  obtain ⟨v, hv⟩ := Option.isSome_iff_exists.mp (informed m hm)
  have value := within m v hv
  rwa [Point.valueOf, hv]

/-- One node of an execution: its stores are below those of the record, and so is what its handlers
see; the execution follows the rest of the block. -/
theorem Follows.step (f : Follows g τ r exit x (n :: rest)) (monotone : τ.Monotone g)
    (hτ : τ.Keeps Store.Canonical g) (canonical : exit.exceptional.Canonical)
    (informed : x.out.merged.isReachable = true → ∀ m ∈ g.operandsOf n, (x.computed m).isSome = true) :
    Follows g τ r exit (g.advance τ x n) rest ∧
      Domain.below x.out.merged (r.node n).before = true ∧
      Domain.below (g.advance τ x n).out.merged (r.node n).after = true ∧
      ∀ t, (g.effectAfter τ x n).thrown = some t →
        Domain.below (Domain.join t (g.advance τ x n).out.merged) exit.exceptional = true := by
  cases live : x.out.merged.isReachable with
  | false =>
    have stuck := Store.not_isReachable_iff.mp live
    obtain ⟨next, silent⟩ := advance_stuck (g := g) (τ := τ) (n := n) stuck
    rw [next, stuck, silent]
    exact ⟨⟨Store.canonical_unreachable, Store.canonical_unreachable, f.within, .inl rfl⟩, rfl, rfl,
      fun _ ht => by cases ht⟩
  | true =>
    have merged := Store.stable_canonical.merged f.whenTrue f.whenFalse
    have own := f.kept hτ n
    rcases f.above with stuck | ⟨out, handlers, replays, whenTrue, whenFalse⟩
    · rw [stuck] at live
      cases live
    · have before := Outflow.merged_mono replays.whenTrue replays.whenFalse whenTrue whenFalse
      obtain ⟨record, next⟩ := replays.step hτ
      have effect := replays.effect_below monotone live merged f.within before (informed live)
      have after := Outflow.merged_mono next.whenTrue next.whenFalse effect.whenTrue effect.whenFalse
      have within : (g.advance τ x n).Within r.valueOf := f.within.advance fun _ => by
        rw [Result.valueOf, record]
        exact effect.value
      refine ⟨⟨own.1, own.2.1, within, .inr ⟨_, _, next, effect.whenTrue, effect.whenFalse⟩⟩, ?_, ?_, fun t ht => ?_⟩
      · rw [record]; exact before
      · rw [record]; exact after
      · obtain ⟨t', ht', less⟩ := effect.thrown t ht
        obtain ⟨both, seen⟩ := replays.thrown_below hτ canonical rfl ht'
        have kept := replays.kept hτ n
        have left := Store.stable_canonical.merged next.whenTrue next.whenFalse
        refine Store.below_trans both canonical (Store.join_below both ?_ ?_) seen
        · exact Store.below_trans (kept.2.2 t' ht') both less (Store.below_join_left (kept.2.2 t' ht') left)
        · exact Store.below_trans left both after (Store.below_join_right (kept.2.2 t' ht') left)

omit [LawfulDomain V] in
theorem informed_append {l l' : List NodeId} :
    g.Informed τ x (l ++ l') ↔ g.Informed τ x l ∧ g.Informed τ (g.execute τ x l) l' := by
  induction l generalizing x with
  | nil => simp [Flowgraph.Informed, Flowgraph.execute]
  | cons n l ih =>
    simp only [List.cons_append, Flowgraph.Informed, ih, and_assoc]
    rfl

section

variable (monotone : τ.Monotone g) (hτ : τ.Keeps Store.Canonical g) (canonical : exit.exceptional.Canonical)

include monotone hτ canonical

/-- Running nodes keeps an execution below the replay. -/
theorem Follows.run {l : List NodeId} (f : Follows g τ r exit x (l ++ rest)) (informed : g.Informed τ x l) :
    Follows g τ r exit (g.execute τ x l) rest := by
  induction l generalizing x with
  | nil => exact f
  | cons n l ih =>
    obtain ⟨head, tail⟩ := informed
    exact ih (f.step monotone hτ canonical head).1 tail

omit monotone hτ canonical in
/-- At the end of a block the stores of an execution are below those of the analysis. -/
theorem Follows.at_end (f : Follows g τ r exit x []) {k : EdgeKind} (hk : k ≠ .exceptional) :
    ((BlockExit.of x.out .unreachable).along k).Canonical ∧
      Domain.below ((BlockExit.of x.out .unreachable).along k) (exit.along k) = true := by
  have merged := Store.stable_canonical.merged f.whenTrue f.whenFalse
  rcases f.above with stuck | ⟨out, handlers, replays, whenTrue, whenFalse⟩
  · rw [stuck]
    cases k with
    | exceptional => exact absurd rfl hk
    | _ => exact ⟨Store.canonical_unreachable, rfl⟩
  · have left : BlockExit.of out handlers = exit := congrArg Prod.snd replays.replay
    rw [← left]
    cases k with
    | normal => exact ⟨merged, Outflow.merged_mono replays.whenTrue replays.whenFalse whenTrue whenFalse⟩
    | whenTrue => exact ⟨f.whenTrue, whenTrue⟩
    | whenFalse => exact ⟨f.whenFalse, whenFalse⟩
    | exceptional => exact absurd rfl hk

/-- Whichever way an execution leaves a block, the analysis has let it out with a larger store. -/
theorem Follows.leaves {b : BlockId} (f : Follows g τ r exit x (g.nodesOf b)) {k : EdgeKind} {store : Store V}
    {computed : Computed V} (leaves : g.Leaves τ b x k store computed) :
    store.Canonical ∧ (Point.enter store computed).Within r.valueOf ∧ Domain.below store (exit.along k) = true := by
  cases leaves with
  | «end» k hk informed =>
    rw [← List.append_nil (g.nodesOf b)] at f
    have ran := f.run monotone hτ canonical informed
    obtain ⟨kept, less⟩ := ran.at_end hk
    exact ⟨kept, ran.within, less⟩
  | throw earlier n more rest thrown split informed threw =>
    rw [informed_append] at informed
    obtain ⟨before, head, after⟩ := informed
    rw [split] at f
    have here := f.run monotone hτ canonical before
    obtain ⟨next, -, -, seen⟩ := here.step monotone hτ canonical head
    have own := here.kept hτ n
    have one : g.execute τ x (earlier ++ [n]) = g.advance τ (g.execute τ x earlier) n := List.foldl_concat ..
    have all : g.execute τ x (earlier ++ n :: more)
        = g.execute τ (g.advance τ (g.execute τ x earlier) n) more := List.foldl_append ..
    rw [one, all]
    refine ⟨?_, (next.run monotone hτ canonical after).within, seen thrown threw⟩
    exact Store.canonical_join (own.2.2 thrown threw) (Store.stable_canonical.merged next.whenTrue next.whenFalse)

end

end

/-! ## Paths -/

/-- A result that solves its equations wherever it lets something flow in. -/
structure Solution (g : Flowgraph) (τ : Transfer V F) (initial : Store V) (r : Result V F) : Prop where
  solved : ∀ b, g.confluence initial r b ≠ .unreachable → SolvedAt g τ initial r b
  input : ∀ b, (r.block b).input.Canonical
  exit : ∀ b, (r.block b).exit.All Store.Canonical

section

variable [LawfulDomain V] {g : Flowgraph} {τ : Transfer V F} {initial : Store V} {r : Result V F}
  {b : BlockId} {store : Store V} {computed : Computed V}

theorem solution_of_converged (hlocal : τ.Local g) (hτ : τ.Keeps Store.Canonical g) (hi : initial.Canonical)
    {limits : Limits} (converged : (g.analyze τ initial limits).stats.converged = true) :
    Solution g τ initial (g.analyze τ initial limits) := by
  obtain ⟨k, final⟩ := Solver.final_of_converged (p := g.problem τ initial _ _) rfl hlocal hτ hi converged
  have all := (Solver.all_invariant (p := g.problem τ initial limits.widenDelay.toNat limits.maxVisits.toNat)
    Store.stable_canonical hi fun _ => hτ).after rfl k
  rw [show g.analyze τ initial limits = _ from final.result]
  refine ⟨fun b inflow => ?_, all.input, all.exit⟩
  have solved := final.solvedAt (b := b) inflow
  rwa [final.result] at solved

omit [LawfulDomain V] in
theorem Solution.canonical_confluence (solution : Solution g τ initial r) (hi : initial.Canonical) (b : BlockId) :
    (g.confluence initial r b).Canonical := by
  refine Store.stable_canonical.joinAll fun s hs => ?_
  rcases List.mem_append.mp hs with hs | hs
  · split at hs
    · rw [List.mem_singleton.mp hs]
      exact hi
    · cases hs
  · obtain ⟨e, -, rfl⟩ := List.mem_map.mp hs
    exact solution.exit e.source e.kind

/-- What flows into a block is below its input, unless nothing does. -/
theorem Solution.confluence_below (solution : Solution g τ initial r) (hi : initial.Canonical) (b : BlockId) :
    Domain.below (g.confluence initial r b) (r.block b).input = true := by
  have flows := solution.canonical_confluence hi b
  by_cases nothing : g.confluence initial r b = .unreachable
  · rw [nothing]
    exact Store.unreachable_below _
  · have solved := solution.solved b nothing
    by_cases head : b ∈ g.loopHeads
    · rw [Store.below_iff_join flows (solution.input b), Store.join_comm flows (solution.input b)]
      exact solved.head head
    · rw [solved.plain head]
      exact Store.below_refl flows

/-- An execution that enters a block below what flows in follows the replay of the block. -/
theorem Solution.follows (solution : Solution g τ initial r) (hi : initial.Canonical) (canonical : store.Canonical)
    (within : (Point.enter store computed).Within r.valueOf)
    (below : Domain.below store (g.confluence initial r b) = true) :
    Follows g τ r (r.block b).exit (.enter store computed) (g.nodesOf b) := by
  refine ⟨canonical, canonical, within, ?_⟩
  by_cases nothing : g.confluence initial r b = .unreachable
  · left
    rw [nothing, Store.below_iff_valueOf Store.canonical_unreachable] at below
    cases store with
    | unreachable => rfl
    | known m => cases below.1 rfl
  · have entered := Store.below_trans (solution.canonical_confluence hi b) (solution.input b) below
      (solution.confluence_below hi b)
    exact .inr ⟨.same (r.block b).input, .unreachable,
      ⟨(solution.solved b nothing).replay, solution.input b, solution.input b, Store.canonical_unreachable⟩,
      entered, entered⟩

/-- Wherever a path leads, the store is one that flows into the block there, and the values are
below the final ones. -/
theorem Solution.arrives (solution : Solution g τ initial r) (monotone : τ.Monotone g)
    (hτ : τ.Keeps Store.Canonical g) (hi : initial.Canonical) (arrives : g.Arrives τ initial b store computed) :
    store.Canonical ∧ (Point.enter store computed).Within r.valueOf ∧
      Domain.below store (g.confluence initial r b) = true := by
  induction arrives with
  | entry =>
    refine ⟨hi, fun _ _ hv => (by cases hv), Store.below_joinAll (solution.canonical_confluence hi g.entry) ?_⟩
    simp
  | @edge e store store' computed computed' he _ leaves ih =>
    obtain ⟨canonical, within, below⟩ := ih
    have follows := solution.follows hi canonical within below
    obtain ⟨canonical', within', out⟩ := follows.leaves monotone hτ (solution.exit e.source .exceptional) leaves
    refine ⟨canonical', within', ?_⟩
    have flows : (r.block e.source).exit.along e.kind ∈ (if e.target = g.entry then [initial] else [])
        ++ (g.predecessors e.target).map fun e => (r.block e.source).exit.along e.kind :=
      List.mem_append_right _ (List.mem_map.mpr ⟨e, Flowgraph.mem_predecessors.mpr ⟨he, rfl⟩, rfl⟩)
    exact Store.below_trans (solution.exit e.source e.kind) (solution.canonical_confluence hi e.target) out
      (Store.below_joinAll (solution.canonical_confluence hi e.target) flows)

/-- A converged analysis covers every path: at each block it gets to, before and after each node it
runs there, and along each edge it leaves by, the store of an execution is below that of the
analysis, and so is every value it has computed. -/
theorem Flowgraph.Arrives.covered (hlocal : τ.Local g) (hτ : τ.Keeps Store.Canonical g) (monotone : τ.Monotone g)
    (hi : initial.Canonical) (limits : Limits) (converged : (g.analyze τ initial limits).stats.converged = true)
    (arrives : g.Arrives τ initial b store computed) :
    let r := g.analyze τ initial limits
    (Domain.below store (r.block b).input = true ∧ (Point.enter store computed).Within r.valueOf) ∧
      (∀ earlier n later, g.nodesOf b = earlier ++ n :: later →
        g.Informed τ (.enter store computed) (earlier ++ [n]) →
          let before := g.execute τ (.enter store computed) earlier
          let after := g.advance τ before n
          Domain.below before.out.merged (r.node n).before = true ∧
            Domain.below after.out.merged (r.node n).after = true ∧ after.Within r.valueOf) ∧
      ∀ k store' computed', g.Leaves τ b (.enter store computed) k store' computed' →
        Domain.below store' ((r.block b).exit.along k) = true := by
  intro r
  have solution : Solution g τ initial r := solution_of_converged hlocal hτ hi converged
  obtain ⟨canonical, within, below⟩ := solution.arrives monotone hτ hi arrives
  have follows := solution.follows hi canonical within below
  refine ⟨⟨?_, within⟩, fun earlier n later split informed => ?_, fun k store' computed' leaves => ?_⟩
  · exact Store.below_trans (solution.canonical_confluence hi b) (solution.input b) below
      (solution.confluence_below hi b)
  · intro before after
    rw [informed_append] at informed
    rw [split] at follows
    have here := follows.run monotone hτ (solution.exit b .exceptional) informed.1
    obtain ⟨next, less, more, -⟩ := here.step monotone hτ (solution.exit b .exceptional) informed.2.1
    exact ⟨less, more, next.within⟩
  · exact (follows.leaves monotone hτ (solution.exit b .exceptional) leaves).2.2

end

/-! ## Counting -/

namespace Counting

theorem learn_below {g : Flowgraph} {s s' : Store Count} (hs' : s'.Canonical) (below : Domain.below s s' = true)
    {look look' : NodeId → Count} (n : NodeId) {v w : Count} (le : Domain.below v w = true) :
    Domain.below (learn ⟨g, s, look⟩ n v) (learn ⟨g, s', look'⟩ n w) = true := by
  unfold learn
  cases (g.node? n).map Node.operation with
  | none => exact below
  | some o =>
    cases o with
    | read p => exact Store.below_set hs' below p le
    | _ => exact below

/-- Without sums, which wrap around, counting is monotone. -/
theorem transfer_monotone {g : Flowgraph}
    (sumless : ∀ node ∈ g.nodes.toList, ∀ lhs rhs, node.operation ≠ .binary .add lhs rhs) :
    transfer.Monotone g := by
  intro n node found s s' look look' live hs hs' below operands
  have same : ∀ v : Count, Domain.below v v = true := below_self
  have plain : ∀ e e' : Effect Count String, e.outflow = .same s → e'.outflow = .same s' →
      e.thrown = none → Domain.below (e.value.getD Domain.top) (e'.value.getD Domain.top) = true → e.Below e' := by
    intro e e' he he' silent value
    refine ⟨?_, ?_, fun t ht => ?_, value⟩
    · rw [he, he']; exact below
    · rw [he, he']; exact below
    · rw [silent] at ht; cases ht
  unfold transfer
  cases o : node.operation with
  | literal v =>
    cases v with
    | int v => exact plain _ _ rfl rfl rfl (same _)
    | _ => exact plain _ _ rfl rfl rfl (same _)
  | read p => exact plain _ _ rfl rfl rfl (((Store.below_iff_valueOf hs').mp below).2 p)
  | assign target value =>
    have written := Store.below_set hs' below target (operands value (by simp [o, Operation.operands]))
    exact ⟨written, written, fun _ ht => (by cases ht), same _⟩
  | binary op lhs rhs =>
    have right := operands rhs (by simp [o, Operation.operands])
    have learned : Domain.below (learn ⟨g, s, look⟩ lhs (look rhs)) (learn ⟨g, s', look'⟩ lhs (look' rhs)) = true :=
      learn_below hs' below lhs right
    cases op with
    | add => exact absurd o (sumless node (Array.mem_toList_iff.mpr (Array.mem_of_getElem? found)) lhs rhs)
    | eq => exact ⟨learned, below, fun _ ht => (by cases ht), same _⟩
    | _ => exact plain _ _ rfl rfl rfl (same _)
  | call callee receiver args =>
    have forgotten := Store.below_forgetFields hs' below
    exact ⟨forgotten, forgotten, fun _ ht => ⟨_, rfl, by cases ht; exact forgotten⟩, same _⟩
  | allocate type args =>
    have written := Store.below_set hs' below (.local "x") (same (.at 5))
    exact ⟨written, written, fun _ ht => ⟨_, rfl, by cases ht; exact below⟩, same _⟩
  | raise value => exact ⟨rfl, rfl, fun _ ht => ⟨_, rfl, by cases ht; exact below⟩, same _⟩
  | handler parameter exception =>
    have written := Store.below_set hs' below (.local parameter) (same (.at 0))
    exact ⟨written, written, fun _ ht => (by cases ht), same _⟩
  | _ => exact plain _ _ rfl rfl rfl (same _)

end Counting

/-- Looks for a seven, and makes an object each time it finds one; a failure to do so ends the search. -/
def search : Flowgraph where
  blocks := #[{ id := ⟨0⟩, role := .entry, nodes := [⟨0⟩, ⟨1⟩] }, { id := ⟨1⟩, nodes := [⟨2⟩, ⟨3⟩, ⟨4⟩] },
    { id := ⟨2⟩, nodes := [⟨5⟩] }, { id := ⟨3⟩, nodes := [⟨6⟩] }]
  nodes := #[{ id := ⟨0⟩, operation := .literal (.int 7) }, { id := ⟨1⟩, operation := .assign (.local "i") ⟨0⟩ },
    { id := ⟨2⟩, operation := .read (.local "i") }, { id := ⟨3⟩, operation := .literal (.int 7) },
    { id := ⟨4⟩, operation := .binary .eq ⟨2⟩ ⟨3⟩ }, { id := ⟨5⟩, operation := .allocate "E" [] },
    { id := ⟨6⟩, operation := .read (.local "x") }]
  edges := [⟨⟨0⟩, ⟨1⟩, .normal⟩, ⟨⟨1⟩, ⟨2⟩, .whenTrue⟩, ⟨⟨1⟩, ⟨3⟩, .whenFalse⟩, ⟨⟨2⟩, ⟨1⟩, .normal⟩,
    ⟨⟨2⟩, ⟨3⟩, .exceptional⟩]
  checked := by decide

/-- Round the loop once, then out through the handler. -/
theorem search_arrives : ∃ store computed, search.Arrives Counting.transfer .blank ⟨3⟩ store computed ∧
    store.valueOf (.local "i") = .at 7 := by
  have start : search.Arrives Counting.transfer .blank ⟨0⟩ .blank fun _ => none := .entry
  have first := Flowgraph.Arrives.edge (e := ⟨⟨0⟩, ⟨1⟩, .normal⟩) (by decide) start
    (.end .normal (by decide) (by decide))
  have second := Flowgraph.Arrives.edge (e := ⟨⟨1⟩, ⟨2⟩, .whenTrue⟩) (by decide) first
    (.end .whenTrue (by decide) (by decide))
  have again := Flowgraph.Arrives.edge (e := ⟨⟨2⟩, ⟨1⟩, .normal⟩) (by decide) second
    (.end .normal (by decide) (by decide))
  have third := Flowgraph.Arrives.edge (e := ⟨⟨1⟩, ⟨2⟩, .whenTrue⟩) (by decide) again
    (.end .whenTrue (by decide) (by decide))
  have last := Flowgraph.Arrives.edge (e := ⟨⟨2⟩, ⟨3⟩, .exceptional⟩) (by decide) third
    (.throw [] ⟨5⟩ [] [] _ rfl (by decide) rfl)
  exact ⟨_, _, last, by decide⟩

theorem search_covered :
    (search.analyze Counting.transfer .blank {}).stats.converged = true ∧
      ∃ store computed, search.Arrives Counting.transfer .blank ⟨3⟩ store computed ∧
        store.valueOf (.local "i") = .at 7 ∧
        Domain.below store ((search.analyze Counting.transfer .blank {}).block ⟨3⟩).input = true := by
  have converged : (search.analyze Counting.transfer .blank {}).stats.converged = true := by cbv
  have monotone : Counting.transfer.Monotone search := Counting.transfer_monotone (by simp [search])
  obtain ⟨store, computed, arrives, seven⟩ := search_arrives
  have covered := Flowgraph.Arrives.covered (Counting.transfer_local search)
    (Counting.transfer_keepsCanonical search) monotone Store.canonical_blank {} converged arrives
  exact ⟨converged, store, computed, arrives, seven, covered.1.1⟩

end FlowCheck
