/-
  FlowCheck.Proofs.Promises — the diagnostics of a contract and the label say the same.

  The label of a routine is joined from the values of its nodes, its diagnostics come from their facts:
  two tables, both rewritten at every visit. They never part, because whatever the limits a node has
  either no value and no facts or those of its operation (`analyze_recorded`). So a contract is
  reported, node by node and property by property, exactly where the value of a node lacks what is
  promised (`contractDiagnostics_eq`), and a property has such a node if and only if the join of the
  values lacks it (`holdsOf_effectOf`). Neither asks whether the run ended by itself: a label that
  promises too much comes with as few diagnostics (`diagnostics_agree_hastyWriter`).
-/

import FlowCheck.Proofs.Verdicts

namespace FlowCheck

namespace Purity

inductive Promise where
  | determinism
  | noSideEffects
  deriving DecidableEq, Repr

namespace Promise

def all : List Promise := [.determinism, .noSideEffects]

def holdsOf : Promise → Properties → Bool
  | .determinism, p => p.deterministic
  | .noSideEffects, p => p.sideEffectFree

def breach : Promise → Cause → DiagnosticKind
  | .determinism => .notDeterministic
  | .noSideEffects => .notSideEffectFree

theorem mem_all (p : Promise) : p ∈ all := by cases p <;> decide

end Promise

/-- Being at least as pure is having every property that the other has. -/
theorem Properties.below_iff {p q : Properties} :
    p.below q = true ↔ ∀ promise : Promise, promise.holdsOf q = true → promise.holdsOf p = true := by
  simp only [below, Bool.and_eq_true, Bool.or_eq_true, Bool.not_eq_true']
  constructor
  · intro h promise required
    cases promise with
    | determinism => exact h.1.resolve_right (ne_false_of_eq_true required)
    | noSideEffects => exact h.2.resolve_right (ne_false_of_eq_true required)
  · intro h
    have each : ∀ promise : Promise, promise.holdsOf p = true ∨ promise.holdsOf q = false := fun promise => by
      cases required : promise.holdsOf q with
      | false => exact .inr rfl
      | true => exact .inl (h promise required)
    exact ⟨each .determinism, each .noSideEffects⟩

theorem Promise.holdsOf_of_isPure (promise : Promise) {p : Properties} (pure : p.isPure = true) :
    promise.holdsOf p = true := by
  obtain ⟨deterministic, sideEffectFree⟩ := Bool.and_eq_true_iff.1 pure
  cases promise with
  | determinism => exact deterministic
  | noSideEffects => exact sideEffectFree

theorem Promise.holdsOf_join (promise : Promise) (p q : Properties) :
    promise.holdsOf (Domain.join p q) = (promise.holdsOf p && promise.holdsOf q) := by
  cases promise <;> rfl

/-- A join has the properties that all have. -/
theorem Promise.holdsOf_joinAll (promise : Promise) (l : List Properties) :
    promise.holdsOf (Domain.joinAll l) = l.all promise.holdsOf := by
  have fold : ∀ p, promise.holdsOf (l.foldl Domain.join p) = (promise.holdsOf p && l.all promise.holdsOf) := by
    induction l with
    | nil => simp
    | cons q l ih =>
      intro p
      rw [List.foldl_cons, ih, holdsOf_join, List.all_cons, Bool.and_assoc]
  have least : promise.holdsOf Domain.bottom = true := by cases promise <;> rfl
  rw [Domain.joinAll, fold, least, Bool.true_and]

end Purity

def DiagnosticKind.promise? : DiagnosticKind → Option Purity.Promise
  | .notDeterministic _ => some .determinism
  | .notSideEffectFree _ => some .noSideEffects
  | _ => none

@[simp] theorem DiagnosticKind.promise?_breach (promise : Purity.Promise) (cause : Purity.Cause) :
    (promise.breach cause).promise? = some promise := by
  cases promise <;> rfl

def Operation.cause? : Operation → Option Purity.Cause
  | .assign (.field ..) _ => some .assignField
  | .storeElement .. => some .assignArray
  | .allocate .. => some .objectCreation
  | .call .. => some .call
  | .handler .. => some .handler
  | _ => none

namespace Purity

variable {c : Callees} {g : Flowgraph} {r : Result Properties Impurity}

/-! ## Values and facts -/

/-- An operation that lacks a property is blamed for its effect, and no other is. -/
theorem impurity?_eq (c : Callees) (op : Operation) :
    c.impurity? op =
      if (c.effectOfOperation op).isPure then none else op.cause?.map (⟨·, c.effectOfOperation op⟩) := by
  unfold Callees.impurity? Callees.effectOfOperation Operation.cause?
  cases op with
  | assign target _ => cases target <;> rfl
  | _ => rfl

/-- Whatever the limits, a node has no value and no facts, or those of its operation. -/
theorem analyze_recorded (c : Callees) (limits : Limits) (g : Flowgraph) :
    (c.analyze limits g).nodes.size = g.nodes.size ∧
      ∀ n, let record := (c.analyze limits g).node n
        record.value = none ∧ record.facts = [] ∨
          ∃ node, g.node? n = some node ∧ record.value = some (c.effectOfOperation node.operation) ∧
            record.facts = (c.impurity? node.operation).toList := by
  have posed := c.posed limits g
  obtain ⟨k, -, nodes, -⟩ := Solver.solve_answers posed.planned
  have shape := Solver.after_shape posed.planned k
  have known := known_of_traced posed shape (Solver.after_traced posed.planned (c.transfer_steady g) k)
  have table : (c.analyze limits g).nodes = ((c.problem limits g).after k).nodes := nodes
  refine ⟨by rw [table]; exact shape.nodes, fun n => ?_⟩
  simp only [Result.node, table]
  by_cases ran : ∃ b, ((c.problem limits g).after k).visited b = true ∧ g.RunsIn (g.nodesOf b) n
  · exact .inr ((known n).1 ran)
  · exact .inl ((known n).2 ran)

/-- An operation that lacks a property has something to blame. -/
theorem exists_cause {op : Operation} (impure : (c.effectOfOperation op).isPure = false) :
    ∃ cause, op.cause? = some cause := by
  cases op with
  | assign target _ =>
    cases target with
    | field => exact ⟨.assignField, rfl⟩
    | _ => cases impure
  | storeElement | allocate | call | handler => exact ⟨_, rfl⟩
  | _ => cases impure

/-! ## What a contract reports -/

/-- The nodes whose values lack a required property, in node order, with the properties they lack. -/
def lacks (g : Flowgraph) (r : Result Properties Impurity) (required : Properties) : List (Node × Promise) :=
  g.nodes.toList.flatMap fun node =>
    (Promise.all.filter fun p => p.holdsOf required && (r.node node.id).value.any (!p.holdsOf ·)).map (node, ·)

def Promise.diagnostic? (context : String) (node : Node) (p : Promise) : Option Diagnostic :=
  node.operation.cause?.map fun cause =>
    { location := node.location, kind := p.breach cause, context := some context }

/-- One property after the other, a node is reported for those it lacks. -/
theorem breaches_eq (required effect : Properties) (cause : Cause) (report : DiagnosticKind → Diagnostic) :
    (if required.deterministic && !effect.deterministic then [report (.notDeterministic cause)] else []) ++
        (if required.sideEffectFree && !effect.sideEffectFree then [report (.notSideEffectFree cause)] else []) =
      (Promise.all.filter fun p => p.holdsOf required && !p.holdsOf effect).map fun p => report (p.breach cause) := by
  cases deterministic : required.deterministic && !effect.deterministic <;>
    cases sideEffectFree : required.sideEffectFree && !effect.sideEffectFree <;>
    simp [Promise.all, Promise.holdsOf, Promise.breach, deterministic, sideEffectFree]

/-- The contract of a body is reported where the value of a node lacks what is promised. -/
theorem contractDiagnostics_eq (c : Callees) (limits : Limits) (g : Flowgraph) (required : Properties)
    (context : String) :
    (contractDiagnostics g required context (c.analyze limits g)).map some =
      (lacks g (c.analyze limits g) required).map fun e => e.2.diagnostic? context e.1 := by
  obtain ⟨size, recorded⟩ := analyze_recorded c limits g
  unfold contractDiagnostics Result.allFacts lacks
  rw [size, ← Flowgraph.nodes_index, List.flatMap_map, List.flatMap_assoc, List.map_flatMap, List.map_flatMap]
  refine List.flatMap_congr fun node hnode => ?_
  have found := Flowgraph.node?_id hnode
  rw [NodeId.ofIndex_index, ← Result.node]
  rcases recorded node.id with ⟨value, facts⟩ | ⟨node', found', value, facts⟩
  · simp [value, facts]
  · obtain rfl := Option.some.inj (found.symm.trans found')
    rw [value, facts, impurity?_eq]
    cases pure : (c.effectOfOperation node.operation).isPure with
    | true =>
      have kept (p : Promise) : p.holdsOf (c.effectOfOperation node.operation) = true := p.holdsOf_of_isPure pure
      simp [kept]
    | false =>
      obtain ⟨cause, blamed⟩ := exists_cause pure
      have reported := breaches_eq required (c.effectOfOperation node.operation) cause
        fun kind => { location := node.location, kind, context := some context }
      simp only [blamed, Option.map_some, Bool.false_eq_true, if_false, Option.toList_some, List.map_cons,
        List.map_nil, List.flatMap_cons, List.flatMap_nil, List.append_nil, found, Option.getD_some,
        Option.any_some, List.map_map]
      rw [reported, List.map_map]
      simp only [Function.comp_def, Promise.diagnostic?, blamed, Option.map_some]

/-! ## Diagnostics and label -/

theorem mem_lacks {required : Properties} {e : Node × Promise} :
    e ∈ lacks g r required ↔
      e.1 ∈ g.nodes.toList ∧ e.2.holdsOf required = true ∧
        ∃ effect, (r.node e.1.id).value = some effect ∧ e.2.holdsOf effect = false := by
  obtain ⟨node, p⟩ := e
  simp [lacks, Promise.mem_all, Option.any_eq_true]

/-- The order of reports: by nodes, and a node is reported for determinism first. -/
def Before (e e' : Node × Promise) : Prop :=
  e.1.id.index < e'.1.id.index ∨ e.1 = e'.1 ∧ e.2 = .determinism ∧ e'.2 = .noSideEffects

theorem lacks_ascending (g : Flowgraph) (r : Result Properties Impurity) (required : Properties) :
    (lacks g r required).Pairwise Before := by
  refine List.pairwise_flatMap.2 ⟨fun node _ => ?_, ?_⟩
  · have ordered : Promise.all.Pairwise fun p q => p = .determinism ∧ q = .noSideEffects := by decide
    refine List.pairwise_map.2 ((ordered.filter _).imp fun h => ?_)
    exact .inr ⟨rfl, h⟩
  · have ascending : g.nodes.toList.Pairwise fun m n => m.id.index < n.id.index :=
      List.pairwise_map.1 (g.nodes_index ▸ List.pairwise_lt_range)
    refine ascending.imp fun {m n} lt e he e' he' => ?_
    obtain ⟨p, -, rfl⟩ := List.mem_map.1 he
    obtain ⟨q, -, rfl⟩ := List.mem_map.1 he'
    exact .inl lt

/-- The effect of a body lacks a property if and only if the value of a node does. -/
theorem holdsOf_effectOf (p : Promise) (g : Flowgraph) (r : Result Properties Impurity) :
    p.holdsOf (effectOf g r) = false ↔
      ∃ node ∈ g.nodes.toList, ∃ effect, (r.node node.id).value = some effect ∧ p.holdsOf effect = false := by
  rw [effectOf, p.holdsOf_joinAll, List.all_eq_false]
  constructor
  · rintro ⟨effect, mem, lacking⟩
    obtain ⟨node, hnode, value⟩ := List.mem_filterMap.1 mem
    exact ⟨node, hnode, effect, value, by simpa using lacking⟩
  · rintro ⟨node, hnode, effect, value, lacking⟩
    exact ⟨effect, List.mem_filterMap.2 ⟨node, hnode, value⟩, by simp [lacking]⟩

/-- The kinds that are reported are the promises that nodes break. -/
theorem exists_diagnostic_iff (c : Callees) (limits : Limits) (g : Flowgraph) (required : Properties)
    (context : String) (p : Promise) :
    (∃ d ∈ contractDiagnostics g required context (c.analyze limits g), d.kind.promise? = some p) ↔
      p.holdsOf required = true ∧ p.holdsOf (effectOf g (c.analyze limits g)) = false := by
  have reports := contractDiagnostics_eq c limits g required context
  rw [holdsOf_effectOf]
  constructor
  · rintro ⟨d, reported, kind⟩
    have mem : some d ∈ (contractDiagnostics g required context (c.analyze limits g)).map some :=
      List.mem_map.2 ⟨d, reported, rfl⟩
    obtain ⟨⟨node, q⟩, lacking, made⟩ := List.mem_map.1 (reports ▸ mem)
    obtain ⟨cause, -, rfl⟩ := Option.map_eq_some_iff.1 made
    obtain rfl : q = p := by simpa using kind
    obtain ⟨hnode, required, value⟩ := mem_lacks.1 lacking
    exact ⟨required, node, hnode, value⟩
  · rintro ⟨required', node, hnode, value⟩
    have lacking := mem_lacks (e := (node, p)).2 ⟨hnode, required', value⟩
    have made := reports ▸ List.mem_map_of_mem lacking
    obtain ⟨d, reported, made⟩ := List.mem_map.1 made
    obtain ⟨cause, -, rfl⟩ := Option.map_eq_some_iff.1 made.symm
    exact ⟨_, reported, by simp⟩

/-- The diagnostics of a contract and the label agree, whether or not the run ended by itself: a
    property is reported if and only if it is promised and the label lacks it, and the reports are made
    node by node for the values that lack it. -/
theorem diagnostics_agree (classifier : Classifier) (declaration : String) (r : Routine) (g : Flowgraph)
    (declared : Label) (body : r.body = some g) (promised : r.declaredPurity = some declared) :
    let result := classifier.callees.analyze classifier.limits g
    let (label, diagnostics) := (classifier.classify declaration r).1
    (∀ p : Promise, (∃ d ∈ diagnostics, d.kind.promise? = some p) ↔
      p.holdsOf declared.properties = true ∧ p.holdsOf label.properties = false) ∧
    (diagnostics = [] ↔ label.properties.below declared.properties = true) ∧
    ∃ broken : List (Node × Promise),
      diagnostics.map some = broken.map (fun e => e.2.diagnostic? (r.qualifiedName declaration) e.1) ∧
        broken.Pairwise Before ∧
        ∀ node p, (node, p) ∈ broken ↔ node ∈ g.nodes.toList ∧ p.holdsOf declared.properties = true ∧
          ∃ effect, (result.node node.id).value = some effect ∧ p.holdsOf effect = false := by
  intro result
  have judged : (classifier.classify declaration r).1 =
      (.ofProperties (effectOf g result),
        contractDiagnostics g declared.properties (r.qualifiedName declaration) result) := by
    simp [Classifier.classify, Classifier.judge, body, promised, result]
  rw [judged]
  simp only [Label.properties_ofProperties]
  have reports := contractDiagnostics_eq classifier.callees classifier.limits g declared.properties
    (r.qualifiedName declaration)
  have kinds := exists_diagnostic_iff classifier.callees classifier.limits g declared.properties
    (r.qualifiedName declaration)
  refine ⟨kinds, ?_, _, reports, lacks_ascending _ _ _, fun _ _ => mem_lacks⟩
  rw [Properties.below_iff]
  constructor
  · intro none p required
    by_contra lacking
    obtain ⟨d, mem, -⟩ := (kinds p).2 ⟨required, by simpa using lacking⟩
    cases none ▸ mem
  · intro keeps
    refine List.map_eq_nil_iff.1 (reports.trans (List.map_eq_nil_iff.2 (List.eq_nil_iff_forall_not_mem.2 ?_)))
    intro e lacking
    obtain ⟨hnode, required, value⟩ := mem_lacks.1 lacking
    have lacking := (holdsOf_effectOf e.2 g result).2 ⟨e.1, hnode, value⟩
    exact absurd (keeps e.2 required) (by simp [result, lacking])

/-- Promises to be pure, but creates an object and then assigns a field, in its second block. -/
def hastyWriter : Routine where
  name := "f"
  declaredPurity := some .pure
  body := some
    { blocks := #[{ id := ⟨0⟩, role := .entry, nodes := [⟨0⟩] }, { id := ⟨1⟩, nodes := [⟨1⟩] }]
      nodes := #[{ id := ⟨0⟩, operation := .allocate "T" [] },
        { id := ⟨1⟩, operation := .assign (.field "this" "x") ⟨0⟩ }]
      edges := [⟨⟨0⟩, ⟨1⟩, .normal⟩]
      checked := by decide }

/-- One visit does not reach the assignment: the label promises too much, and nothing is reported for
    it. -/
theorem diagnostics_agree_hastyWriter :
    ((hasty 1).classify "D" hastyWriter).1.1 = .sideEffectFree ∧
      (∃ d ∈ ((hasty 1).classify "D" hastyWriter).1.2, d.kind.promise? = some .determinism) ∧
      ¬∃ d ∈ ((hasty 1).classify "D" hastyWriter).1.2, d.kind.promise? = some .noSideEffects := by
  have label : ((hasty 1).classify "D" hastyWriter).1.1 = .sideEffectFree := by cbv
  have agree := (diagnostics_agree (hasty 1) "D" hastyWriter _ .pure rfl rfl).1
  rw [label] at agree
  exact ⟨label, (agree .determinism).2 ⟨rfl, rfl⟩, fun reported => by cases ((agree .noSideEffects).1 reported).2⟩

end Purity

end FlowCheck
