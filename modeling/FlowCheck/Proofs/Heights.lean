/-
  FlowCheck.Proofs.Heights — how far values can be raised.

  Widening a qualified value makes its type unknown, at most once, or widens its qualifier under the
  same type. So it stabilises if widening qualifiers does (`Qualified.wellFounded_widened`). A value of
  the usage analysis can be raised four times (`TaggedValue.height_le`), so a strictly ascending chain
  has at most five elements (`values_form_lattices`).
-/

import FlowCheck.Proofs.Lattices
import FlowCheck.Proofs.Settling
import Mathlib.Data.List.Chain
import Mathlib.Order.WellFounded

namespace FlowCheck

/-! ## Widening -/

section

variable {V : Type} [Domain V]

/-- Widening with any elements changes something only finitely often. -/
def WideningSettles (V : Type) [Domain V] : Prop :=
  ∀ v t : Nat → V, (∀ i, v (i + 1) = Domain.widen (v i) (t i)) → Settles v

/-- `a` comes from `b` by a widening that changes it, with an element that may be met there. Where only
larger elements are met, this is `Widened`. -/
def WidenedBy (meets : V → V → Prop) (a b : V) : Prop := ∃ t, meets b t ∧ a = Domain.widen b t ∧ a ≠ b

theorem wideningSettles_iff : WideningSettles V ↔ WellFounded (WidenedBy (V := V) fun _ _ => True) := by
  constructor
  · intro settles
    rw [wellFounded_iff_isEmpty_descending_chain, isEmpty_iff]
    rintro ⟨v, steps⟩
    choose t ht using steps
    obtain ⟨K, settled⟩ := settles v t fun i => (ht i).2.1
    exact (ht K).2.2 (settled (K + 1) (Nat.le_succ K))
  · intro wf v t steps
    refine settles_of_wellFounded wf (K := 0) fun k _ => ?_
    by_cases still : v (k + 1) = v k
    · exact .inl still
    · exact .inr ⟨t k, trivial, steps k, still⟩

theorem FiniteHeight.wideningSettles [LawfulDomain V] (finite : FiniteHeight V) : WideningSettles V :=
  fun v t steps => finite v fun k => by
    rw [steps k]
    exact join_widen_left _ _

end

namespace Flat

variable {α : Type} [DecidableEq α]

theorem join_eq_right {a b : Flat α} (h : Domain.join a b = b) : a = .bottom ∨ b = a ∨ b = .top := by
  cases a <;> cases b <;> simp_all [Domain.join, join]

theorem finiteHeight : FiniteHeight (Flat α) := by
  intro f chain
  by_cases raised : ∃ K, f K ≠ .bottom
  · obtain ⟨K, hK⟩ := raised
    have stays : ∀ k, K ≤ k → f k ≠ .bottom := fun k hk => by
      induction k, hk using Nat.le_induction with
      | base => exact hK
      | succ k _ ih =>
        rcases join_eq_right (chain k) with e | e | e
        · exact absurd e ih
        · rwa [e]
        · rw [e]; exact fun h => by cases h
    exact settles_of_choice fun k hk => (join_eq_right (chain k)).resolve_left (stays k hk)
  · exact settles_const .bottom fun k => Classical.byContradiction fun h => raised ⟨k, h⟩

end Flat

namespace Qualified

variable {Q : Type} [Domain Q]

def typesLeft : Qualified Q → Nat
  | .never => 2
  | .typed type _ => if type = .unknown then 0 else 1

/-- A widening changes the type, or keeps it and changes the qualifier. -/
theorem widen_cases {a b t : Qualified Q} (widened : a = Domain.widen b t) (other : a ≠ b) :
    typesLeft a < typesLeft b ∨
      ∃ type p type' q, b = .typed type p ∧ t = .typed type' q ∧ a = .typed type (Domain.widen p q) := by
  cases b with
  | never =>
    left
    cases t with
    | never => exact absurd widened other
    | typed type q => rw [widened]; simp only [typesLeft, Domain.widen, combine]; split <;> omega
  | typed type p =>
    cases t with
    | never => exact absurd widened other
    | typed type' q =>
      have widened : a = .typed (type.join type') (Domain.widen p q) := widened
      by_cases same : type.join type' = type
      · exact .inr ⟨type, p, type', q, rfl, rfl, by rw [widened, same]⟩
      · left
        have lost : type.join type' = .unknown := by
          unfold ValueType.join at same ⊢
          split <;> simp_all
        have known : type ≠ .unknown := fun e => same (by rw [lost, e])
        simp [widened, lost, known, typesLeft]

/-- Widening stabilises if widening of qualifiers does. -/
theorem wellFounded_widened {meets : Q → Q → Prop} {meets' : Qualified Q → Qualified Q → Prop}
    (inner : ∀ s p t q, meets' (.typed s p) (.typed t q) → meets p q)
    (wf : WellFounded (WidenedBy meets)) :
    WellFounded (WidenedBy meets') := by
  -- the type can change twice, and between two changes only the qualifier is widened
  refine Subrelation.wf ?_ (InvImage.wf (fun v : Qualified Q => (typesLeft v, v.qualifier))
    (Nat.lt_wfRel.wf.prod_lex wf))
  rintro a b ⟨t, met, widened, other⟩
  rcases widen_cases widened other with fewer | ⟨type, p, type', q, rfl, rfl, rfl⟩
  · exact .left _ _ fewer
  · exact .right _ ⟨q, inner _ _ _ _ met, rfl, fun e => other (by rw [show Domain.widen p q = p from e])⟩

end Qualified

/-! ## Ascending chains -/

/-- A bounded rank that grows along chains bounds their length. -/
theorem length_le_of_rank {V : Type} [Domain V] (rank : V → Nat) (top : Nat) (bounded : ∀ a, rank a ≤ top)
    (grows : ∀ a b : V, Domain.join a b = b → a ≠ b → rank a < rank b) {l : List V}
    (ascends : l.IsChain fun a b => Domain.join a b = b ∧ a ≠ b) : l.length ≤ top + 1 := by
  have ranks : (l.map rank).IsChain (· < ·) :=
    List.isChain_map_of_isChain rank (fun a b h => grows a b h.1 h.2) ascends
  have distinct : (l.map rank).Nodup := ranks.pairwise.imp fun h => Nat.ne_of_lt h
  have inside : l.map rank ⊆ List.range (top + 1) := fun n hn => by
    obtain ⟨a, -, rfl⟩ := List.mem_map.mp hn
    exact List.mem_range.mpr (Nat.lt_succ_of_le (bounded a))
  simpa using (List.subperm_of_subset distinct inside).length_le

open Constants in
/-- Flat values form a lattice in which widening stabilises. Qualified values obey what laws their qualifiers
obey, with types and qualifiers ordered and joined side by side, and widening them stabilises if
widening qualifiers does. A strictly ascending chain of values of the usage analysis has at most five
elements. -/
theorem values_form_lattices :
    (∀ (α : Type) [DecidableEq α],
      LawfulDomain (Flat α) ∧ LeastBounds (Domain.below : Flat α → Flat α → Bool) Domain.join ∧
        WideningStabilises (Flat α) ∧ WideningSettles (Flat α)) ∧
    LeastBounds ValueType.isSubtypeOf ValueType.join ∧
    (∀ (Q : Type) [Domain Q],
      (OrderedLaws Q → OrderedLaws (Qualified Q)) ∧
        (LawfulDomain Q → LawfulDomain (Qualified Q) ∧
          LeastBounds (Domain.below : Qualified Q → Qualified Q → Bool) Domain.join) ∧
        (∀ (s t : ValueType) (p q : Q),
          Domain.below (Qualified.typed s p) (.typed t q) = (s.isSubtypeOf t && Domain.below p q) ∧
            Domain.join (Qualified.typed s p) (.typed t q) = .typed (s.join t) (Domain.join p q)) ∧
        (WideningStabilises Q → WideningStabilises (Qualified Q)) ∧
        (WideningSettles Q → WideningSettles (Qualified Q))) ∧
    ∀ l : List TaggedValue, l.IsChain (fun a b => Domain.below a b = true ∧ a ≠ b) → l.length ≤ 5 := by
  refine ⟨fun α _ => ⟨inferInstance, LawfulDomain.leastBounds _, Flat.finiteHeight.wideningStabilises,
      Flat.finiteHeight.wideningSettles⟩, ValueType.leastBounds, fun Q _ => ?_, fun l ascends => ?_⟩
  · refine ⟨Qualified.orderedLaws, fun _ => ⟨inferInstance, LawfulDomain.leastBounds _⟩,
      fun s t p q => ⟨rfl, rfl⟩, fun stable => ?_, fun settles => ?_⟩
    · rw [wideningStabilises_iff] at stable ⊢
      refine Qualified.wellFounded_widened (fun s p t q met => ?_) stable
      exact (Bool.and_eq_true_iff.mp met).2
    · rw [wideningSettles_iff] at settles ⊢
      exact Qualified.wellFounded_widened (fun _ _ _ _ _ => trivial) settles
  · refine length_le_of_rank TaggedValue.height 4 TaggedValue.height_le (fun _ _ => TaggedValue.height_lt) ?_
    exact ascends.imp fun a b h => ⟨(LawfulDomain.below_iff a b).mp h.1, h.2⟩

open Constants in
/-- Five elements are possible. -/
example :
    [Qualified.never, .typed .int .bottom, TaggedValue.plain .int, .typed .int .top, .typed .unknown .top].IsChain
      (fun a b : TaggedValue => Domain.below a b = true ∧ a ≠ b) := by decide

end FlowCheck
