/-
  FlowCheck.Proofs.Pointwise — stores are functions from places to values.

  Whatever the operations make of the two extreme stores records no top (`Built.canonical`), so a
  store is unreachable or is known by the values its places can hold. Join and order are those of the
  values, place by place (`pointwise`). A store records finitely many places of infinitely many
  (`exists_unrecorded`): some place of a reachable store can hold anything, and of an unreachable one
  nothing, so the values alone tell that the former is not below the latter.
-/

import FlowCheck.Proofs.Contracts
import Mathlib.Data.Fintype.EquivFin
import Mathlib.Data.List.Permutation

namespace FlowCheck

instance : Infinite Place := .of_injective Place.local fun _ _ => Place.local.inj

namespace Store

variable {V : Type} [Domain V] [DecidableEq V]

/-- The stores that come of the blank and the unreachable one. -/
inductive Built : Store V → Prop where
  | blank : Built blank
  | unreachable : Built unreachable
  | set {s : Store V} (p : Place) (v : V) : Built s → Built (s.set p v)
  | forget {s : Store V} (p : Place) : Built s → Built (s.forget p)
  | forgetFields {s : Store V} : Built s → Built s.forgetFields
  | join {s t : Store V} : Built s → Built t → Built (Domain.join s t)
  | widen {s t : Store V} : Built s → Built t → Built (Domain.widen s t)

/-- To forget a place is to record that it can hold anything. -/
theorem forget_eq_set (s : Store V) (p : Place) : s.forget p = s.set p Domain.top := by
  cases s <;> simp [forget, set, Domain.isTop]

theorem Built.canonical {s : Store V} (h : s.Built) : s.Canonical := by
  induction h with
  | blank => exact canonical_blank
  | unreachable => exact canonical_unreachable
  | set p v _ ih => exact canonical_set ih p v
  | forget p _ ih => rw [forget_eq_set]; exact canonical_set ih p _
  | forgetFields _ ih => exact canonical_forgetFields ih
  | join _ _ ihs iht => exact canonical_join ihs iht
  | widen _ _ ihs iht => exact canonical_widen ihs iht

omit [Domain V] [DecidableEq V] in
theorem exists_unrecorded (m : SortedMap Place V) : ∃ p, m.find? p = none := by
  obtain ⟨p, hp⟩ := Infinite.exists_notMem_finset m.keys.toFinset
  refine ⟨p, Option.eq_none_iff_forall_ne_some.mpr fun v hv => hp ?_⟩
  rw [List.mem_toFinset]
  exact List.mem_map.mpr ⟨(p, v), SortedMap.find?_eq_some_iff.mp hv, rfl⟩

variable {s t u : Store V}

omit [DecidableEq V] in
theorem eq_iff_values (hs : s.Canonical) (ht : t.Canonical) :
    s = t ↔ s = .unreachable ∧ t = .unreachable ∨
      s.isReachable = true ∧ t.isReachable = true ∧ ∀ p, s.valueOf p = t.valueOf p := by
  constructor
  · rintro rfl
    cases live : s.isReachable with
    | false => exact .inl ⟨not_isReachable_iff.mp live, not_isReachable_iff.mp live⟩
    | true => exact .inr ⟨rfl, rfl, fun _ => rfl⟩
  · rintro (⟨rfl, rfl⟩ | ⟨ls, lt, values⟩)
    · rfl
    · exact ext_valueOf hs ht (ls.trans lt.symm) values

variable [LawfulDomain V]

omit [DecidableEq V] in
theorem top_not_below_bottom (apart : (Domain.top : V) ≠ Domain.bottom) :
    ¬Domain.below (Domain.top : V) Domain.bottom = true := fun h => by
  have := (LawfulDomain.below_iff _ _).mp h
  rw [LawfulDomain.top_join] at this
  exact apart this

/-- The order of stores is that of their values, if anything is not nothing. -/
theorem below_iff_values (apart : (Domain.top : V) ≠ Domain.bottom) (ht : t.Canonical) :
    Domain.below s t = true ↔ ∀ p, Domain.below (s.valueOf p) (t.valueOf p) = true := by
  rw [below_iff_valueOf ht, and_iff_right_of_imp]
  intro values live
  obtain ⟨m, rfl⟩ := isReachable_iff.mp live
  obtain ⟨p, hp⟩ := exists_unrecorded m
  cases t with
  | unreachable =>
    have anything : (known m).valueOf p = Domain.top := by simp [valueOf, hp]
    have := values p
    rw [anything] at this
    exact absurd this (top_not_below_bottom apart)
  | known n => rfl

/-- Stores are the value domain lifted pointwise. -/
theorem pointwise (apart : (Domain.top : V) ≠ Domain.bottom) (hs : s.Built) (ht : t.Built) (hu : u.Built) :
    s.Canonical ∧
      (s = t ↔ s = .unreachable ∧ t = .unreachable ∨
        s.isReachable = true ∧ t.isReachable = true ∧ ∀ p, s.valueOf p = t.valueOf p) ∧
      (∀ p, (Domain.join s t).valueOf p = Domain.join (s.valueOf p) (t.valueOf p)) ∧
      (Domain.below s t = true ↔ Domain.join s t = t) ∧
      (Domain.join s t = t ↔ ∀ p, Domain.below (s.valueOf p) (t.valueOf p) = true) ∧
      Domain.join s (Domain.join t u) = Domain.join (Domain.join s t) u ∧
      Domain.join s t = Domain.join t s ∧
      Domain.join s s = s ∧
      Domain.join .unreachable s = s ∧
      Domain.join blank s = blank ∧
      (Domain.below s (Domain.join s t) = true ∧ Domain.below t (Domain.join s t) = true ∧
        (Domain.below s u = true → Domain.below t u = true → Domain.below (Domain.join s t) u = true)) ∧
      Domain.below s (Domain.widen s t) = true ∧ Domain.below t (Domain.widen s t) = true := by
  have cs := hs.canonical
  have ct := ht.canonical
  have cu := hu.canonical
  have order := below_iff_join cs ct
  have wide := canonical_widen cs ct
  refine ⟨cs, eq_iff_values cs ct, fun p => valueOf_join p, order, ?_, join_assoc cs ct cu, join_comm cs ct,
    join_self cs, unreachable_join s, blank_join s, ⟨below_join_left cs ct, below_join_right cs ct, join_below cu⟩,
    ?_, ?_⟩
  · rw [← order, below_iff_values apart ct]
  · rw [below_iff_join cs wide, join_widen_left cs ct]
  · rw [below_iff_join ct wide, join_widen_right cs ct]

def assigned : Store Constants.Tag :=
  (blank.set (.local "x") Constants.Tag.plain).set (.field "this" "f") (Constants.Tag.ofGroup (some "Color"))

def rebound : Store Constants.Tag := assigned.forgetFields.set (.local "x") (Constants.Tag.ofGroup (some "Shape"))

theorem pointwise_assigned :
    (Domain.top : Constants.Tag) ≠ Domain.bottom ∧ assigned.Built ∧ rebound.Built ∧ assigned.forgetFields.Built ∧
      assigned ≠ rebound ∧ Domain.join assigned rebound = blank ∧
      (∀ p, Domain.join (assigned.valueOf p) (rebound.valueOf p) = Domain.top) ∧
      Domain.below assigned assigned.forgetFields = true ∧
      ∀ p, Domain.below (assigned.valueOf p) (assigned.forgetFields.valueOf p) = true := by
  have apart : (Domain.top : Constants.Tag) ≠ Domain.bottom := by decide
  have built : assigned.Built := .set _ _ (.set _ _ .blank)
  have forgotten : assigned.forgetFields.Built := .forgetFields built
  have again : rebound.Built := .set _ _ forgotten
  have joined : Domain.join assigned rebound = blank := by cbv
  obtain ⟨-, -, values, -⟩ := pointwise apart built again forgotten
  obtain ⟨-, -, -, order, lifted, -⟩ := pointwise apart built forgotten again
  have below : Domain.below assigned assigned.forgetFields = true := by cbv
  refine ⟨apart, built, again, forgotten, fun same => ?_, joined, fun p => ?_, below, lifted.mp (order.mp below)⟩
  · have known : assigned.valueOf (.field "this" "f") = .value (.member "Color") := by cbv
    have lost : rebound.valueOf (.field "this" "f") = .top := by cbv
    rw [same, lost] at known
    cases known
  · rw [← values, joined]
    rfl

end Store

end FlowCheck
