/-
  FlowCheck.Proofs.Contracts — what the analyses promise the solver.

  Their values form lawful domains. Their transfer functions read the operands of a node and
  nothing else, and never record a top. For effects and usage, whether a store they answer is
  reachable depends on the operation alone (`Transfer.Steady`): a raise ends the block, an operation
  that may throw shows its handlers something, and nothing else makes a point unreachable.
-/

import FlowCheck.Analysis.Counting
import FlowCheck.Constants.Usage
import FlowCheck.Proofs.Lattices
import FlowCheck.Proofs.Sweeps
import FlowCheck.Purity.Analysis

namespace FlowCheck

/-! ## Domains -/

instance : LawfulDomain Purity.Properties where
  join_assoc := by rintro ⟨a, a'⟩ ⟨b, b'⟩ ⟨c, c'⟩; simp [Domain.join, Bool.and_assoc]
  join_comm := by rintro ⟨a, a'⟩ ⟨b, b'⟩; simp [Domain.join, Bool.and_comm]
  join_self := by rintro ⟨a, a'⟩; simp [Domain.join]
  bottom_join := by rintro ⟨a, a'⟩; simp [Domain.join, Domain.bottom, Purity.Properties.pure]
  top_join := by rintro ⟨a, a'⟩; simp [Domain.join, Domain.top, Purity.Properties.impure]
  below_iff := by
    rintro ⟨a, a'⟩ ⟨b, b'⟩
    cases a <;> cases a' <;> cases b <;> cases b' <;> decide
  widen_left := by
    rintro ⟨a, a'⟩ ⟨b, b'⟩
    cases a <;> cases a' <;> cases b <;> cases b' <;> decide
  widen_right := by
    rintro ⟨a, a'⟩ ⟨b, b'⟩
    cases a <;> cases a' <;> cases b <;> cases b' <;> decide

/-! ## Steady transfer functions -/

def Operation.raises : Operation → Bool
  | .raise _ => true
  | _ => false

/-- Which stores an effect leaves reachable depends on the operation alone. -/
def Transfer.Steady {V F : Type} (g : Flowgraph) (τ : Transfer V F) : Prop :=
  ∀ (node : Node) (store : Store V) (look : NodeId → V), store.isReachable = true →
    (τ node ⟨g, store, look⟩).outflow.whenTrue.isReachable = !node.operation.raises ∧
      (τ node ⟨g, store, look⟩).outflow.whenFalse.isReachable = !node.operation.raises ∧
      (τ node ⟨g, store, look⟩).thrown.isSome = node.operation.mayThrow ∧
      ∀ t, (τ node ⟨g, store, look⟩).thrown = some t → t.isReachable = true

/-! ## The effect analysis -/

namespace Purity.Callees

variable (c : Callees) (g : Flowgraph)

theorem transfer_local : c.transfer.Local g := fun _ _ _ _ _ => rfl

theorem transfer_keepsCanonical : c.transfer.Keeps Store.Canonical g := by
  intro node store look h
  have out : (c.transfer node ⟨g, store, look⟩).outflow = .same .unreachable ∨
      (c.transfer node ⟨g, store, look⟩).outflow = .same store := by
    unfold transfer
    dsimp only
    split
    · exact .inl rfl
    · exact .inr rfl
  refine ⟨?_, ?_, fun t ht => ?_⟩
  · rcases out with e | e <;> rw [e]
    · exact Store.canonical_unreachable
    · exact h
  · rcases out with e | e <;> rw [e]
    · exact Store.canonical_unreachable
    · exact h
  · simp only [transfer, ite_eq_iff, Option.some.injEq, reduceCtorEq, and_false, or_false] at ht
    exact ht.2 ▸ h

theorem transfer_steady : c.transfer.Steady g := by
  intro node store look h
  refine ⟨?_, ?_, ?_, ?_⟩
  · cases e : node.operation <;> simp [transfer, e, Operation.raises, Outflow.whenTrue, h]
  · cases e : node.operation <;> simp [transfer, e, Operation.raises, Outflow.whenFalse, h]
  · cases e : node.operation.mayThrow <;> simp [transfer, e]
  · cases e : node.operation.mayThrow <;> simp [transfer, e, h]

end Purity.Callees

/-! ## The usage analysis -/

namespace Constants.Scope

variable (s : Scope) (g : Flowgraph)

theorem transfer_local : s.transfer.Local g := by
  intro node store look look' h
  unfold transfer
  cases e : node.operation <;> simp_all [Operation.operands, binaryOutflow, learn]

theorem learn_canonical {store : Store TaggedValue} (h : store.Canonical) (operand : NodeId) (other : TaggedValue) :
    (learn g store operand other).Canonical := by
  unfold learn
  split
  · exact Store.canonical_set h _ _
  · exact h

theorem learn_isReachable (store : Store TaggedValue) (operand : NodeId) (other : TaggedValue) :
    (learn g store operand other).isReachable = store.isReachable := by
  unfold learn
  split
  · exact Store.isReachable_set _ _ _
  · rfl

theorem transfer_keepsCanonical : s.transfer.Keeps Store.Canonical g := by
  intro node store look h
  unfold transfer Effect.All
  cases e : node.operation with
  | binary op lhs rhs =>
    have learned := learn_canonical g (learn_canonical g h lhs (look rhs)) rhs (look lhs)
    refine ⟨?_, ?_, ?_⟩
    · unfold binaryOutflow
      cases op <;> first | exact learned | exact h
    · unfold binaryOutflow
      cases op <;> first | exact learned | exact h
    · intro t ht
      simp only [ite_eq_iff, Option.some.injEq, reduceCtorEq, and_false, or_false] at ht
      exact ht.2 ▸ h
  | _ =>
    simp [Outflow.whenTrue, Outflow.whenFalse, h, Store.canonical_set h, Store.canonical_forgetFields h,
      Store.canonical_unreachable]

theorem binaryOutflow_isReachable {sit : Situation TaggedValue} (h : sit.store.isReachable = true) (op : BinaryOp)
    (lhs rhs : NodeId) (left right : TaggedValue) :
    (binaryOutflow sit op lhs rhs left right).whenTrue.isReachable = true ∧
      (binaryOutflow sit op lhs rhs left right).whenFalse.isReachable = true := by
  unfold binaryOutflow
  cases op <;> simp [Outflow.whenTrue, Outflow.whenFalse, learn_isReachable, h]

theorem transfer_steady : s.transfer.Steady g := by
  intro node store look h
  unfold transfer
  cases e : node.operation with
  | binary op lhs rhs =>
    have out := binaryOutflow_isReachable (show (⟨g, store, look⟩ : Situation _).store.isReachable = true from h) op lhs rhs (look lhs) (look rhs)
    cases t : op.mayThrow <;> simp [Operation.raises, Operation.mayThrow, out, t, h]
  | _ =>
    simp [Operation.raises, Operation.mayThrow, Outflow.whenTrue, Outflow.whenFalse, h, Store.isReachable_set,
      Store.isReachable_forgetFields]

end Constants.Scope

/-! ## Counting -/

namespace Count

theorem toNat_max (a b : UInt32) : (max a b).toNat = max a.toNat b.toNat := by
  show (if a ≤ b then b else a).toNat = _
  simp only [UInt32.le_iff_toNat_le]
  split <;> omega

theorem join_self (a : Count) : join a a = a := by
  cases a with
  | «at» n => simp [join, ← UInt32.toNat_inj, toNat_max]
  | _ => rfl

theorem join_comm (a b : Count) : join a b = join b a := by
  cases a <;> cases b <;> simp [join, ← UInt32.toNat_inj, toNat_max, Nat.max_comm]

theorem join_assoc (a b c : Count) : join a (join b c) = join (join a b) c := by
  cases a <;> cases b <;> cases c <;> simp [join, ← UInt32.toNat_inj, toNat_max, Nat.max_assoc]

/-- A widening gives up or joins. -/
theorem widen_cases (a b : Count) : widen a b = .top ∨ widen a b = join a b := by
  unfold widen
  split
  · split
    · exact .inl rfl
    · exact .inr rfl
  · exact .inr rfl

theorem join_top (a : Count) : join a .top = .top := by cases a <;> rfl

instance : LawfulDomain Count where
  join_assoc := join_assoc
  join_comm := join_comm
  join_self := join_self
  bottom_join a := by cases a <;> rfl
  top_join a := by cases a <;> rfl
  below_iff a b := by simp [Domain.below, Domain.join]
  widen_left a b := by
    show decide (join a (widen a b) = widen a b) = true
    rcases widen_cases a b with e | e <;> simp [e, join_top, join_assoc, join_self]
  widen_right a b := by
    show decide (join b (widen a b) = widen a b) = true
    rcases widen_cases a b with e | e
    · simp [e, join_top]
    · simp [e, join_comm a b, join_assoc, join_self]

end Count

namespace Counting

theorem transfer_local (g : Flowgraph) : transfer.Local g := by
  intro node store look look' h
  unfold transfer
  cases e : node.operation with
  | literal v => cases v <;> rfl
  | binary op lhs rhs =>
    have left := h lhs (by simp [e, Operation.operands])
    have right := h rhs (by simp [e, Operation.operands])
    cases op <;> simp [left, right, learn]
  | assign target value =>
    have operand := h value (by simp [e, Operation.operands])
    simp [operand]
  | _ => rfl

theorem learn_canonical {sit : Situation Count} (h : sit.store.Canonical) (n : NodeId) (value : Count) :
    (learn sit n value).Canonical := by
  unfold learn
  split
  · exact Store.canonical_set h _ _
  · exact h

theorem transfer_keepsCanonical (g : Flowgraph) : transfer.Keeps Store.Canonical g := by
  intro node store look h
  unfold transfer Effect.All
  cases e : node.operation with
  | literal v => cases v <;> simp [Outflow.whenTrue, Outflow.whenFalse, h]
  | binary op lhs rhs =>
    have learned : (learn ⟨g, store, look⟩ lhs (look rhs)).Canonical := learn_canonical h lhs (look rhs)
    cases op <;> simp [Outflow.whenTrue, Outflow.whenFalse, h, learned]
  | _ =>
    simp [Outflow.whenTrue, Outflow.whenFalse, h, Store.canonical_set h, Store.canonical_forgetFields h,
      Store.canonical_unreachable]

end Counting

/-! ## Initial stores -/

/-- A routine starts at a reachable store that records no top. -/
theorem entryStore_spec (r : Routine) :
    (Constants.Routine.entryStore r).Canonical ∧ (Constants.Routine.entryStore r).isReachable = true := by
  unfold Constants.Routine.entryStore
  refine List.foldlRecOn (motive := fun s : Store Constants.TaggedValue => s.Canonical ∧ s.isReachable = true) r.parameters _
    ⟨Store.canonical_blank, rfl⟩ fun s h q _ => ?_
  exact ⟨Store.canonical_set h.1 _ _, by rw [Store.isReachable_set]; exact h.2⟩

end FlowCheck
