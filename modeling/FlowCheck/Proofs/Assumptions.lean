/-
  FlowCheck.Proofs.Assumptions — what is assumed of unknown callees acts on labels, and on nothing else.

  The value of a node in the effect analysis depends on the node and on what is known of callees, not on
  the run. Two runs that know different things of callees write different values into their tables, at
  the same nodes: a node has a value in both or in neither (`Alike`). So a value changes in one run
  exactly when it does in the other, and the runs go from state to state together, up to the cap and
  beyond it (`solve_parallel`): they end with the same blocks and the same counters.

  A label is joined from values node by node, so the run that takes callees to be purer gives labels that
  promise no less (`label_mono`), and so does a session (`assumptions_act`). If what is assumed is not
  asked for in a body at all, the two transfer functions are the same on it, and so are the runs
  (`analyze_congr`).
-/

import FlowCheck.Proofs.DeclarationOrder
import FlowCheck.Proofs.Promises
import FlowCheck.Proofs.Simulation

namespace FlowCheck

variable {V F : Type}

/-- Two transfer functions that let out the same stores, each with a value for a node that depends on
the node alone. -/
structure Transfer.Parallel (τ τ' : Transfer V F) (value value' : Node → V) : Prop where
  outflow : ∀ node {sit sit'}, sit'.store = sit.store → (τ' node sit').outflow = (τ node sit).outflow
  thrown : ∀ node {sit sit'}, sit'.store = sit.store → (τ' node sit').thrown = (τ node sit).thrown
  value : ∀ node sit, (τ node sit).value = some (value node)
  value' : ∀ node sit, (τ' node sit).value = some (value' node)

namespace Solver

/-- Two records of a node, with values in both or in neither. -/
def Matched (g : Flowgraph) (value value' : Node → V) (n : NodeId) (r r' : NodeRecord V F) : Prop :=
  r.value = none ∧ r'.value = none ∨
    ∃ node, g.node? n = some node ∧ r.value = some (value node) ∧ r'.value = some (value' node)

structure Alike (g : Flowgraph) (value value' : Node → V) (t t' : Slots (NodeRecord V F)) : Prop where
  size : t'.size = t.size
  matched : ∀ n : NodeId, Matched g value value' n (t.get n.index) (t'.get n.index)

section

variable {g : Flowgraph} {value value' : Node → V} {t t' : Slots (NodeRecord V F)} {n : NodeId}
  {r r' : NodeRecord V F}

theorem Matched.isSome_eq (h : Matched g value value' n r r') : r'.value.isSome = r.value.isSome := by
  rcases h with ⟨blank, blank'⟩ | ⟨_, -, known, known'⟩
  · rw [blank, blank']
  · rw [known, known']
    rfl

/-- Both have their value already, or neither has. -/
theorem Matched.value_iff (h : Matched g value value' n r r') {node : Node} (found : g.node? n = some node) :
    r'.value = some (value' node) ↔ r.value = some (value node) := by
  rcases h with ⟨blank, blank'⟩ | ⟨_, found', known, known'⟩
  · rw [blank, blank']
    exact iff_of_false nofun nofun
  · obtain rfl := Option.some.inj (found.symm.trans found')
    exact iff_of_true known' known

theorem Alike.set (h : Alike g value value' t t') (matched : Matched g value value' n r r') :
    Alike g value value' (t.set n.index r) (t'.set n.index r') where
  size := by rw [Slots.size_set, Slots.size_set, h.size]
  matched m := by
    rw [Slots.get_set, Slots.get_set, h.size]
    split
    · rename_i written
      exact NodeId.index_inj.mp written.1 ▸ matched
    · exact h.matched m

end

variable [Domain V] [DecidableEq V] {p : Solver V F} {τ : Transfer V F} {value value' : Node → V}

structure Paired (value value' : Node → V) (node : Node) (e e' : Effect V F) : Prop where
  outflow : e'.outflow = e.outflow
  thrown : e'.thrown = e.thrown
  value : e.value = none ∧ e'.value = none ∨ e.value = some (value node) ∧ e'.value = some (value' node)

variable (parallel : p.transfer.Parallel τ value value')

include parallel

theorem paired_nextEffect {n : NodeId} {node : Node} (found : p.plan.graph.node? n = some node) (w : Sweep V F)
    (t : Slots (NodeRecord V F)) (m : Unit) :
    Paired value value' node (p.nextEffect w n) ((p.instructed τ.client ()).nextEffect (w.over t m) n) := by
  show Paired value value' node (p.plan.graph.effectAt p.transfer (tableValue w.nodes) n w.outflow.merged)
    (p.plan.graph.effectAt τ (tableValue t) n w.outflow.merged)
  cases w.outflow.merged with
  | unreachable =>
    rw [Flowgraph.effectAt_unreachable, Flowgraph.effectAt_unreachable]
    exact ⟨rfl, rfl, .inl ⟨rfl, rfl⟩⟩
  | known facts =>
    simp only [Flowgraph.effectAt, found]
    exact ⟨parallel.outflow node rfl, parallel.thrown node rfl, .inr ⟨parallel.value node _, parallel.value' node _⟩⟩

/-- Running a node in tables that are alike leaves tables that are alike, and makes no difference otherwise. -/
theorem simulates_parallel : p.Simulates τ.client () fun t _ t' _ => Alike p.plan.graph value value' t t' := by
  intro w n t' m nodes
  have old := nodes.matched n
  cases found : p.plan.graph.node? n with
  | none =>
    unfold sweepNode Sweep.over instructed
    dsimp only
    rw [found]
    cases w.outflow.merged <;> exact ⟨_, m, by rw [old.isSome_eq], nodes.set (.inl ⟨rfl, rfl⟩)⟩
  | some node =>
    obtain ⟨outflow, thrown, values⟩ := paired_nextEffect parallel found w t' m
    have found' : (p.instructed τ.client ()).plan.graph.node? n = some node := found
    have seen : ((p.instructed τ.client ()).nextEffect (w.over t' m) n).seenBy w.exceptional =
        (p.nextEffect w n).seenBy w.exceptional := by
      unfold Effect.seenBy
      rw [thrown, outflow]
    have kept : (t'.get n.index).value = ((p.instructed τ.client ()).nextEffect (w.over t' m) n).value ↔
        (w.nodes.get n.index).value = (p.nextEffect w n).value := by
      rcases values with ⟨blank, blank'⟩ | ⟨own, own'⟩
      · rw [blank, blank', ← Option.not_isSome_iff_eq_none, ← Option.not_isSome_iff_eq_none, old.isSome_eq]
      · rw [own, own', old.value_iff found]
    rw [sweepNode_eq found, sweepNode_eq found']
    refine ⟨t'.set n.index (.of w.outflow.merged ((p.instructed τ.client ()).nextEffect (w.over t' m) n)), m, ?_,
      nodes.set (values.imp id fun h => ⟨node, found, h.1, h.2⟩)⟩
    rw [outflow]
    unfold Sweep.over at *
    dsimp only
    rw [seen]
    simp only [kept]

/-- Whatever the values, the runs end in the same way. -/
theorem solve_parallel :
    ∃ nodes, (p.instructed τ.client ()).solve = { p.solve with nodes } ∧
      Alike p.plan.graph value value' p.solve.nodes nodes := by
  have blank (n : NodeId) : (p.start.nodes.get n.index).value = none := by simp [start]
  obtain ⟨nodes, _, same, alike⟩ := run_simulated (simulates_parallel parallel) p.start (t := p.start.nodes) (m := ())
    ⟨rfl, fun n => .inl ⟨blank n, blank n⟩⟩
  exact ⟨nodes, congrArg State.result same, alike⟩

end Solver

def Flowgraph.callees (g : Flowgraph) : List String :=
  g.nodes.toList.filterMap fun node =>
    match node.operation with
    | .call callee .. => some callee
    | _ => none

namespace Purity

variable {c c' : Callees} {limits : Limits} {g : Flowgraph}

/-! ## Two runs that know different things of callees -/

theorem Callees.parallel (c c' : Callees) :
    c.transfer.Parallel c'.transfer (fun node => c.effectOfOperation node.operation)
      fun node => c'.effectOfOperation node.operation where
  outflow _ _ _ store := by simp only [transfer, store]
  thrown _ _ _ store := by simp only [transfer, store]
  value node sit := c.transfer_value node sit
  value' node sit := c'.transfer_value node sit

/-- Whatever is known of callees, a run reaches the same blocks and ends with the same counters, and the
same nodes have values. -/
theorem analyze_parallel (c c' : Callees) (limits : Limits) (g : Flowgraph) :
    let r := c.analyze limits g
    let r' := c'.analyze limits g
    r'.blocks = r.blocks ∧ r'.stats = r.stats ∧
      ∀ n, Solver.Matched g (fun node => c.effectOfOperation node.operation)
        (fun node => c'.effectOfOperation node.operation) n (r.node n) (r'.node n) := by
  intro r r'
  obtain ⟨nodes, same, alike⟩ := Solver.solve_parallel (p := c.problem limits g) (c.parallel c')
  have same : r' = { r with nodes } := same
  rw [same]
  exact ⟨rfl, rfl, alike.matched⟩

def Label.Covers (l l' : Label) : Prop := l.properties.below l'.properties = true

/-- Calling any routine is at least as pure by what `c` knows as by what `c'` does. -/
structure Callees.Purer (c c' : Callees) : Prop where
  effect : ∀ callee, (c.effect callee).below (c'.effect callee) = true
  assumed : c.assumed.below c'.assumed = true

theorem Callees.Purer.effectOfOperation (h : c.Purer c') (op : Operation) :
    (c.effectOfOperation op).below (c'.effectOfOperation op) = true := by
  unfold Callees.effectOfOperation
  cases op with
  | call callee => exact h.effect callee
  | assign target => cases target <;> rfl
  | _ => rfl

theorem effectOf_mono (h : c.Purer c') (limits : Limits) (g : Flowgraph) :
    (effectOf g (c.analyze limits g)).below (effectOf g (c'.analyze limits g)) = true := by
  rw [Properties.below_iff]
  intro p kept
  by_contra lost
  obtain ⟨node, hnode, effect, value, lacking⟩ := (holdsOf_effectOf p g _).1 (by simpa using lost)
  rcases (analyze_parallel c c' limits g).2.2 node.id with ⟨blank, -⟩ | ⟨node', -, own, own'⟩
  · rw [value] at blank
    cases blank
  · obtain rfl := Option.some.inj (value.symm.trans own)
    have purer := Properties.below_iff.1 (h.effectOfOperation node'.operation) p
    have lacking' : p.holdsOf (c'.effectOfOperation node'.operation) = false := by
      by_contra holds
      rw [purer (by simpa using holds)] at lacking
      cases lacking
    rw [(holdsOf_effectOf p g _).2 ⟨node, hnode, _, own', lacking'⟩] at kept
    cases kept

/-- The analysis of a body asks for the effects of the routines it calls, and for nothing else. -/
theorem analyze_congr (same : ∀ callee ∈ g.callees, c'.effect callee = c.effect callee) :
    c'.analyze limits g = c.analyze limits g := by
  have impurity : ∀ node ∈ g.nodes, c'.impurity? node.operation = c.impurity? node.operation := by
    intro node hnode
    cases op : node.operation with
    | call callee =>
      have mem : callee ∈ g.callees := List.mem_filterMap.2 ⟨node, Array.mem_toList_iff.2 hnode, by rw [op]⟩
      simp only [Callees.impurity?, same callee mem]
    | assign target => cases target <;> rfl
    | _ => rfl
  have agree m node (hnode : node ∈ g.nodes) sit : c'.transfer.client m node sit = c.transfer.client m node sit := by
    show (c'.transfer node sit, m) = (c.transfer node sit, m)
    unfold Callees.transfer
    rw [impurity node hnode]
  exact congrArg Prod.fst (Flowgraph.analyzeWith_of_agree (fun m node hnode sit _ => agree m node hnode sit) () _ _)

/-- Of callees that are declared nothing is assumed. -/
theorem effect_of_declared (declared : c'.declared = c.declared) {callee : String}
    (found : c.declared.contains callee = true) : c'.effect callee = c.effect callee := by
  obtain ⟨label, found⟩ := Option.isSome_iff_exists.1 found
  unfold Callees.effect
  rw [declared, found]

namespace Classifier

variable {c c' : Classifier}

/-- Who takes callees to be purer gives labels that promise no less. -/
theorem label_mono (h : c.callees.Purer c'.callees) (limits : c'.limits = c.limits) (declaration : String)
    (r : Routine) :
    (c.judge declaration r).1.Covers (c'.judge declaration r).1 := by
  unfold judge Label.Covers
  cases r.body with
  | none => simpa using h.assumed
  | some g => simpa [limits] using effectOf_mono h c.limits g

/-- So are the reports, entry by entry. -/
theorem report_mono (h : c.callees.Purer c'.callees) (limits : c'.limits = c.limits) (l : List (String × Routine))
    {report report' : Report Label} (d m : String)
    (before : Option.Rel Label.Covers (report.find? d m) (report'.find? d m)) :
    Option.Rel Label.Covers ((l.foldl c.recordLabel report).find? d m) ((l.foldl c'.recordLabel report').find? d m) := by
  induction l generalizing report report' with
  | nil => exact before
  | cons e l ih =>
    refine ih ?_
    unfold recordLabel
    rw [Report.find?_record, Report.find?_record]
    split
    · exact .some (label_mono h limits e.1 e.2)
    · exact before

theorem declareAll_eq (l : List (String × Label)) (c : Classifier) :
    l.foldl (fun c e => c.declare e.1 e.2) c =
      { c with callees.declared := l.foldl (fun t e => t.insert e.1 e.2) c.callees.declared } := by
  induction l generalizing c with
  | nil => rfl
  | cons e l ih => exact ih (c.declare e.1 e.2)

end Classifier

end Purity

/-! ## Sessions -/

/-- The classifier that labels the routines of a program: the labels of the program come on top of those
that are configured. -/
def Program.classifier (p : Program) (o : Options) : Purity.Classifier := ((Session.start o).register p).classifier

namespace Program

variable (p : Program) (o o' : Options)

theorem classifier_eq :
    p.classifier o =
      .start o.engine ⟨p.contracts.foldl (fun t e => t.insert e.1 e.2) o.purity.callees, o.purity.assumed⟩ := by
  rw [classifier, Session.register_eq, Purity.Classifier.declareAll_eq]
  rfl

/-- The purity report has the label of each routine. -/
theorem purity_check : (p.check o).purity = p.routines.foldl (p.classifier o).recordLabel .empty := by
  have empty : (p.classifier o).report = .empty := by rw [classifier_eq]; rfl
  rw [← empty]
  exact ((Session.start o).register p).report_checkAll p.declarations

/-- What is assumed of unknown callees acts monotonically, and only where nothing is known:
- if calling any routine is at least as pure under `o` as under `o'`, and so is what is assumed, every
  entry of the purity report promises no less under `o` than under `o'`;
- a body all of whose callees have a declared or configured label is analysed with the same result,
  counters included, and labelled and reported in the same way, whatever is assumed. -/
theorem assumptions_act (engine : o'.engine = o.engine) :
    ((∀ callee, ((p.classifier o).callees.effect callee).below ((p.classifier o').callees.effect callee) = true) →
      o.purity.assumed.below o'.purity.assumed = true →
      ∀ d m, Option.Rel Purity.Label.Covers ((p.check o).purity.find? d m) ((p.check o').purity.find? d m)) ∧
    (o'.purity.callees = o.purity.callees → ∀ d r g, r.body = some g →
      (∀ callee ∈ g.callees, (p.classifier o).callees.declared.contains callee = true) →
        (p.classifier o').analyze r = (p.classifier o).analyze r ∧
          ((p.classifier o').classify d r).1 = ((p.classifier o).classify d r).1) := by
  have limits : (p.classifier o').limits = (p.classifier o).limits := by
    rw [classifier_eq, classifier_eq]
    exact engine
  constructor
  · intro effect assumed d m
    have purer : (p.classifier o).callees.Purer (p.classifier o').callees :=
      ⟨effect, by rw [classifier_eq, classifier_eq]; exact assumed⟩
    rw [purity_check, purity_check]
    exact Purity.Classifier.report_mono purer limits p.routines d m .none
  · intro configured d r g body asked
    have declared : (p.classifier o').callees.declared = (p.classifier o).callees.declared := by
      rw [classifier_eq, classifier_eq]
      simp only [Purity.Classifier.start, configured]
    have result (limits : Limits) :
        (p.classifier o').callees.analyze limits g = (p.classifier o).callees.analyze limits g :=
      Purity.analyze_congr fun callee mem => Purity.effect_of_declared declared (asked callee mem)
    constructor
    · simp only [Purity.Classifier.analyze, body, Option.map_some, limits, result]
    · simp only [Purity.Classifier.classify, Purity.Classifier.judge, body, limits, result]

end Program

def callOut : Flowgraph where
  blocks := #[{ id := ⟨0⟩, role := .entry, nodes := [⟨0⟩] }]
  nodes := #[{ id := ⟨0⟩, operation := .call "lib.g()" none [] }]
  edges := []
  checked := by decide

def callIn : Flowgraph where
  blocks := #[{ id := ⟨0⟩, role := .entry, nodes := [⟨0⟩] }]
  nodes := #[{ id := ⟨0⟩, operation := .call "D.g()" none [] }]
  edges := []
  checked := by decide

def insider : Routine := { name := "h", declaredPurity := some .pure, body := some callIn }

def outsider : Routine := { name := "f", body := some callOut }

def callers : Program :=
  ⟨[{ name := "D", routines := [outsider, { name := "g", declaredPurity := some .sideEffectFree }, insider] }]⟩

def trusting : Options := { purity := { assumePure := true } }

theorem assumptions_act_callers :
    ((callers.check trusting).purity.find? "D" "f()" = some .pure ∧
      (callers.check {}).purity.find? "D" "f()" = some .impure) ∧
    (∀ d m, Option.Rel Purity.Label.Covers ((callers.check trusting).purity.find? d m)
      ((callers.check {}).purity.find? d m)) ∧
    (callers.classifier {}).analyze insider = (callers.classifier trusting).analyze insider ∧
    ((callers.classifier {}).classify "D" insider).1 = ((callers.classifier trusting).classify "D" insider).1 := by
  obtain ⟨monotone, unasked⟩ := callers.assumptions_act trusting {} rfl
  have entry : (callers.check trusting).purity.find? "D" "f()" =
      some ((callers.classifier trusting).classify "D" outsider).1.1 := rfl
  have entry' : (callers.check {}).purity.find? "D" "f()" =
      some ((callers.classifier {}).classify "D" outsider).1.1 := rfl
  have trusted : ((callers.classifier trusting).classify "D" outsider).1.1 = .pure := by cbv
  have doubted : ((callers.classifier {}).classify "D" outsider).1.1 = .impure := by
    let c := (callers.classifier {}).callees
    have unknown : ∀ callee ∈ callOut.callees, c.effect callee = Purity.Callees.effect ⟨.empty, .impure⟩ callee := by
      decide
    show Purity.Label.ofProperties (Purity.effectOf callOut (c.analyze {} callOut)) = _
    rw [Purity.analyze_congr unknown]
    cbv
  have purer : ∀ callee, ((callers.classifier trusting).callees.effect callee).below
      ((callers.classifier {}).callees.effect callee) = true := by
    intro callee
    have declared : (callers.classifier {}).callees.declared = (callers.classifier trusting).callees.declared := rfl
    unfold Purity.Callees.effect
    rw [declared]
    cases (callers.classifier trusting).callees.declared.find? callee with
    | some label => exact Purity.Properties.below_iff.2 fun _ kept => kept
    | none => rfl
  obtain ⟨result, verdict⟩ := unasked rfl "D" insider callIn rfl (by decide)
  rw [entry, entry', trusted, doubted]
  exact ⟨⟨rfl, rfl⟩, monotone purer rfl, result, verdict⟩

end FlowCheck
