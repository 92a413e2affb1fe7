/-
  FlowCheck.Proofs.Lattices — abstract domains as lattices.

  The laws of a domain say no more and no less than that the order is partial, joins are least upper
  bounds in it and widenings upper bounds (`lawfulDomain_iff`). Flat values are such a domain. Types
  have joins (`ValueType.leastBounds`), and types and qualifiers side by side keep every law of the
  qualifiers (`Qualified.orderedLaws`, `Qualified.join_below`).
-/

import FlowCheck.Domain.Flat
import FlowCheck.Domain.Qualified
import FlowCheck.Proofs.Stores

namespace FlowCheck

/-! ## Orders with joins -/

section

variable {α : Type} (below : α → α → Bool) (join : α → α → α)

/-- `below` is a partial order, in which `join` gives upper bounds. -/
structure UpperBounds : Prop where
  refl (a : α) : below a a = true
  antisymm {a b : α} : below a b = true → below b a = true → a = b
  trans {a b c : α} : below a b = true → below b c = true → below a c = true
  left (a b : α) : below a (join a b) = true
  right (a b : α) : below b (join a b) = true

structure LeastBounds : Prop extends UpperBounds below join where
  least {a b c : α} : below a c = true → below b c = true → below (join a b) c = true

end

/-- The laws of a domain in terms of its order, without those that say that joins are least. -/
structure OrderedLaws (V : Type) [Domain V] : Prop extends
    UpperBounds (Domain.below : V → V → Bool) Domain.join where
  join_comm (a b : V) : Domain.join a b = Domain.join b a
  join_self (a : V) : Domain.join a a = a
  join_assoc (a b c : V) : Domain.join a (Domain.join b c) = Domain.join (Domain.join a b) c
  bottom_join (a : V) : Domain.join Domain.bottom a = a
  top_join (a : V) : Domain.join Domain.top a = (Domain.top : V)
  widen_left (a b : V) : Domain.below a (Domain.widen a b) = true
  widen_right (a b : V) : Domain.below b (Domain.widen a b) = true

theorem LawfulDomain.leastBounds (V : Type) [Domain V] [LawfulDomain V] :
    LeastBounds (Domain.below : V → V → Bool) Domain.join where
  refl := below_self
  antisymm := below_antisymm
  trans := below_trans
  left := below_join_left
  right := below_join_right
  least := join_below

/-- Where joins are least, one element is below another exactly if the join is the other. -/
theorem lawfulDomain_iff {V : Type} [Domain V] :
    LawfulDomain V ↔ OrderedLaws V ∧ LeastBounds (Domain.below : V → V → Bool) Domain.join := by
  constructor
  · intro laws
    have bounds := LawfulDomain.leastBounds V
    exact ⟨{ bounds with
      join_comm := laws.join_comm
      join_self := laws.join_self
      join_assoc := laws.join_assoc
      bottom_join := laws.bottom_join
      top_join := laws.top_join
      widen_left := laws.widen_left
      widen_right := laws.widen_right }, bounds⟩
  · rintro ⟨laws, bounds⟩
    refine { laws with below_iff := fun a b => ⟨fun h => ?_, fun h => ?_⟩ }
    · exact bounds.antisymm (bounds.least h (bounds.refl b)) (bounds.right a b)
    · rw [← h]
      exact bounds.left a b

/-! ## Flat values -/

instance {α : Type} [DecidableEq α] : LawfulDomain (Flat α) where
  join_assoc a b c := by
    cases a <;> cases b <;> cases c <;> simp only [Domain.join, Flat.join]
    all_goals grind [Flat.join]
  join_comm a b := by
    cases a <;> cases b <;> simp only [Domain.join, Flat.join]
    grind
  join_self a := by cases a <;> simp [Domain.join, Flat.join]
  bottom_join a := by cases a <;> rfl
  top_join a := by cases a <;> rfl
  below_iff a b := by
    cases a <;> cases b <;> simp [Domain.below, Domain.join, Flat.below, Flat.join]
    grind
  widen_left a b := by
    cases a <;> cases b <;> simp only [Domain.below, Domain.widen, Flat.join] <;>
      grind [Flat.below]
  widen_right a b := by
    cases a <;> cases b <;> simp only [Domain.below, Domain.widen, Flat.join] <;>
      grind [Flat.below]

/-! ## Types and qualifiers -/

namespace ValueType

theorem join_assoc (a b c : ValueType) : a.join (b.join c) = (a.join b).join c := by
  simp only [join]; grind

theorem join_comm (a b : ValueType) : a.join b = b.join a := by
  simp only [join]; grind

theorem isSubtypeOf_join_left (a b : ValueType) : a.isSubtypeOf (a.join b) = true := by
  simp only [join, isSubtypeOf]; grind

theorem isSubtypeOf_join_right (a b : ValueType) : b.isSubtypeOf (a.join b) = true := by
  simp only [join, isSubtypeOf]; grind

theorem leastBounds : LeastBounds isSubtypeOf join where
  refl a := by simp [isSubtypeOf]
  antisymm {a b} := by simp only [isSubtypeOf]; grind
  trans {a b c} := by simp only [isSubtypeOf]; grind
  left := isSubtypeOf_join_left
  right := isSubtypeOf_join_right
  least {a b c} := by simp only [isSubtypeOf, join]; grind

end ValueType

namespace Qualified

variable {Q : Type} [Domain Q]

theorem below_combine_left {op : Q → Q → Q} (refl : ∀ p : Q, Domain.below p p = true)
    (left : ∀ p q, Domain.below p (op p q) = true) (a b : Qualified Q) : below a (combine op a b) = true := by
  cases a <;> cases b <;>
    simp [below, combine, refl, left, ValueType.leastBounds.refl, ValueType.isSubtypeOf_join_left]

theorem below_combine_right {op : Q → Q → Q} (refl : ∀ p : Q, Domain.below p p = true)
    (right : ∀ p q, Domain.below q (op p q) = true) (a b : Qualified Q) : below b (combine op a b) = true := by
  cases a <;> cases b <;>
    simp [below, combine, refl, right, ValueType.leastBounds.refl, ValueType.isSubtypeOf_join_right]

theorem orderedLaws (laws : OrderedLaws Q) : OrderedLaws (Qualified Q) where
  refl a := by cases a <;> simp [Domain.below, below, ValueType.leastBounds.refl, laws.refl]
  antisymm {a b} := by
    cases a <;> cases b <;> simp only [Domain.below, below, Bool.and_eq_true, reduceCtorEq, false_implies, implies_true]
    rintro ⟨st, pq⟩ ⟨ts, qp⟩
    rw [ValueType.leastBounds.antisymm st ts, laws.antisymm pq qp]
  trans {a b c} := by
    cases a <;> cases b <;> cases c <;>
      simp only [Domain.below, below, Bool.and_eq_true, reduceCtorEq, false_implies, implies_true]
    rintro ⟨st, pq⟩ ⟨tu, qr⟩
    exact ⟨ValueType.leastBounds.trans st tu, laws.trans pq qr⟩
  left := below_combine_left laws.refl laws.left
  right := below_combine_right laws.refl laws.right
  join_comm a b := by
    cases a <;> cases b <;> simp [Domain.join, combine, ValueType.join_comm, laws.join_comm]
  join_self a := by cases a <;> simp [Domain.join, combine, ValueType.join, laws.join_self]
  join_assoc a b c := by
    cases a <;> cases b <;> cases c <;>
      simp [Domain.join, combine, ValueType.join_assoc, laws.join_assoc]
  bottom_join a := by cases a <;> rfl
  top_join a := by cases a <;> simp [Domain.join, Domain.top, combine, ValueType.join, laws.top_join]
  widen_left := below_combine_left laws.refl laws.widen_left
  widen_right := below_combine_right laws.refl laws.widen_right

theorem join_below (bounds : LeastBounds (Domain.below : Q → Q → Bool) Domain.join) {a b c : Qualified Q}
    (ac : Domain.below a c = true) (bc : Domain.below b c = true) : Domain.below (Domain.join a b) c = true := by
  cases a with
  | never => cases b <;> exact bc
  | typed s p =>
    cases b with
    | never => exact ac
    | typed t q =>
      cases c with
      | never => cases ac
      | typed u r =>
        obtain ⟨su, pr⟩ := Bool.and_eq_true_iff.mp ac
        obtain ⟨tu, qr⟩ := Bool.and_eq_true_iff.mp bc
        exact Bool.and_eq_true_iff.mpr ⟨ValueType.leastBounds.least su tu, bounds.least pr qr⟩

end Qualified

instance {Q : Type} [Domain Q] [lawful : LawfulDomain Q] : LawfulDomain (Qualified Q) := by
  obtain ⟨laws, bounds⟩ := lawfulDomain_iff.mp lawful
  have ordered := Qualified.orderedLaws laws
  exact lawfulDomain_iff.mpr ⟨ordered, { ordered with least := Qualified.join_below bounds }⟩

end FlowCheck
