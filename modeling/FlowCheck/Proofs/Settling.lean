/-
  FlowCheck.Proofs.Settling — sequences that stop changing.

  Along a chain every element is below the next. In a domain of finite height every chain settles.
  Types and tags have such a height (`finiteHeight_taggedValue`), and so have stores, as far as they
  are canonical (`settles_chain`): a chain of stores never gains a place.

  Without finite height a chain of stores settles if from some point on it is only widened, and
  widening values settles (`settles_widened`): a place is lost, or its value is widened.
-/

import FlowCheck.Constants.Tag
import FlowCheck.Proofs.Stores
import Mathlib.Data.Nat.Init
import Mathlib.Order.WellFounded
import Mathlib.Tactic.ByContra

namespace FlowCheck

/-! ## Settling -/

section

variable {α β : Type}

def SettlesAt (f : Nat → α) (K : Nat) : Prop := ∀ k, K ≤ k → f k = f K

def Settles (f : Nat → α) : Prop := ∃ K, SettlesAt f K

variable {f : Nat → α} {K L : Nat}

theorem SettlesAt.mono (h : SettlesAt f K) (le : K ≤ L) : SettlesAt f L :=
  fun k hk => (h k (Nat.le_trans le hk)).trans (h L le).symm

theorem SettlesAt.comp (h : SettlesAt f K) (g : α → β) : SettlesAt (fun k => g (f k)) K :=
  fun k hk => congrArg g (h k hk)

theorem Settles.comp (h : Settles f) (g : α → β) : Settles fun k => g (f k) :=
  h.imp fun _ at_ => at_.comp g

theorem settles_const (a : α) (h : ∀ k, f k = a) : Settles f := ⟨0, fun k _ => by rw [h, h]⟩

theorem settlesAt_of_step (h : ∀ k, K ≤ k → f (k + 1) = f k) : SettlesAt f K := by
  intro k hk
  induction k, hk using Nat.le_induction with
  | base => rfl
  | succ k hk ih => rw [h k hk, ih]

/-- A sequence that from some point on stays as it is or takes one fixed value settles. -/
theorem settles_of_choice {a : α} (h : ∀ k, K ≤ k → f (k + 1) = f k ∨ f (k + 1) = a) : Settles f := by
  by_cases taken : ∃ k, K ≤ k ∧ f (k + 1) = a
  · obtain ⟨k, hk, e⟩ := taken
    have stays : ∀ j, k + 1 ≤ j → f j = a := fun j hj => by
      induction j, hj using Nat.le_induction with
      | base => exact e
      | succ j hj ih =>
        rcases h j (by omega) with stay | take
        · rw [stay, ih]
        · exact take
    exact ⟨k + 1, fun j hj => by rw [stays j hj, e]⟩
  · exact ⟨K, settlesAt_of_step fun k hk => (h k hk).resolve_right fun e => taken ⟨k, hk, e⟩⟩

/-- A sequence that from some point on stays as it is or steps down a well-founded relation settles. -/
theorem settles_of_wellFounded {r : α → α → Prop} (wf : WellFounded r)
    (h : ∀ k, K ≤ k → f (k + 1) = f k ∨ r (f (k + 1)) (f k)) : Settles f := by
  -- by induction on the element that the sequence has come to
  suffices ∀ a k, K ≤ k → f k = a → Settles f from this (f K) K (Nat.le_refl _) rfl
  intro a
  induction a using wf.induction with
  | h a ih =>
    intro k hk here
    by_cases moves : ∃ j, k ≤ j ∧ r (f (j + 1)) a
    · obtain ⟨j, hj, down⟩ := moves
      exact ih _ down (j + 1) (by omega) rfl
    · refine ⟨k, fun j hj => ?_⟩
      induction j, hj using Nat.le_induction with
      | base => rfl
      | succ j hj still =>
        rcases h j (by omega) with stay | down
        · rw [stay, still]
        · rw [still, here] at down
          exact absurd ⟨j, hj, down⟩ moves

/-- Finitely many sequences that settle have settled at one common point. -/
theorem exists_settlesAt {g : β → Nat → α} {l : List β} (h : ∀ x ∈ l, Settles (g x)) :
    ∃ K, ∀ x ∈ l, SettlesAt (g x) K := by
  induction l with
  | nil => exact ⟨0, fun _ hx => by cases hx⟩
  | cons x l ih =>
    obtain ⟨K, hK⟩ := ih fun y hy => h y (List.mem_cons_of_mem _ hy)
    obtain ⟨L, hL⟩ := h x List.mem_cons_self
    refine ⟨max K L, fun y hy => ?_⟩
    rcases List.mem_cons.mp hy with rfl | hy
    · exact hL.mono (Nat.le_max_right _ _)
    · exact (hK y hy).mono (Nat.le_max_left _ _)

end

/-! ## Finite height -/

section

variable {V : Type} [Domain V]

def Chain (f : Nat → V) : Prop := ∀ k, Domain.join (f k) (f (k + 1)) = f (k + 1)

def FiniteHeight (V : Type) [Domain V] : Prop := ∀ f : Nat → V, Chain f → Settles f

/-- A bounded rank that grows along chains gives finite height. -/
theorem finiteHeight_of_rank (rank : V → Nat) (top : Nat) (bounded : ∀ a, rank a ≤ top)
    (grows : ∀ a b : V, Domain.join a b = b → a ≠ b → rank a < rank b) : FiniteHeight V := by
  intro f chain
  refine settles_of_wellFounded (measure fun a => top - rank a).wf (K := 0) fun k _ => ?_
  by_cases still : f (k + 1) = f k
  · exact .inl still
  · have higher := grows _ _ (chain k) (Ne.symm still)
    have below := bounded (f (k + 1))
    right
    show top - rank (f (k + 1)) < top - rank (f k)
    omega

/-- Widening with ever larger elements changes something only finitely often. -/
def WideningStabilises (V : Type) [Domain V] : Prop :=
  ¬∃ v t : Nat → V, ∀ i, Domain.below (v i) (t i) = true ∧ v (i + 1) = Domain.widen (v i) (t i) ∧ v (i + 1) ≠ v i

/-- `a` comes from `b` by a widening that changes it. -/
def Widened (a b : V) : Prop := ∃ t, Domain.below b t = true ∧ a = Domain.widen b t ∧ a ≠ b

theorem wideningStabilises_iff : WideningStabilises V ↔ WellFounded (Widened (V := V)) := by
  rw [WideningStabilises, wellFounded_iff_isEmpty_descending_chain, isEmpty_iff]
  constructor
  · rintro stable ⟨v, steps⟩
    choose t ht using steps
    exact stable ⟨v, t, ht⟩
  · rintro none_ ⟨v, t, ht⟩
    exact none_ ⟨v, fun i => ⟨t i, ht i⟩⟩

/-- A bounded rank that grows with every widening that changes something makes widening stabilise. -/
theorem wideningStabilises_of_rank (rank : V → Nat) (top : Nat) (bounded : ∀ a, rank a ≤ top)
    (grows : ∀ b t : V, Domain.below b t = true → Domain.widen b t ≠ b → rank b < rank (Domain.widen b t)) :
    WideningStabilises V := by
  rw [wideningStabilises_iff]
  refine Subrelation.wf ?_ (measure fun a => top - rank a).wf
  rintro _ b ⟨t, below, rfl, other⟩
  have higher := grows b t below other
  have limit := bounded (Domain.widen b t)
  show top - rank (Domain.widen b t) < top - rank b
  omega

/-- In a domain of finite height every widening stabilises. -/
theorem FiniteHeight.wideningStabilises [LawfulDomain V] (finite : FiniteHeight V) : WideningStabilises V := by
  rintro ⟨v, t, ht⟩
  obtain ⟨K, settled⟩ := finite v fun k => by
    rw [(ht k).2.1]
    exact join_widen_left _ _
  exact (ht K).2.2 (settled (K + 1) (Nat.le_succ K))

end

namespace Constants

def Tag.height : Tag → Nat
  | .bottom => 0
  | .value _ => 1
  | .top => 2

def TaggedValue.height : TaggedValue → Nat
  | .never => 0
  | .typed type tag => 1 + (if type = .unknown then 1 else 0) + Tag.height tag

theorem Tag.height_lt {a b : Tag} (below : Domain.join a b = b) (other : a ≠ b) : height a < height b := by
  cases a <;> cases b <;> simp_all [Domain.join, Flat.join, height]

theorem TaggedValue.height_lt {a b : TaggedValue} (below : Domain.join a b = b) (other : a ≠ b) :
    height a < height b := by
  cases a with
  | never =>
    cases b with
    | never => exact absurd rfl other
    | typed type tag => simp only [height]; omega
  | typed type tag =>
    cases b with
    | never => cases below
    | typed type' tag' =>
      simp only [Domain.join, Qualified.combine, Qualified.typed.injEq] at below
      obtain ⟨types, tags⟩ := below
      have tagged : tag = tag' ∨ Tag.height tag < Tag.height tag' :=
        or_iff_not_imp_left.mpr (Tag.height_lt tags)
      have typed : type = type' ∨ type ≠ .unknown ∧ type' = .unknown := by
        unfold ValueType.join at types
        split at types
        · exact .inl ‹_›
        · rename_i ne
          exact .inr ⟨fun e => ne (e.trans types), types.symm⟩
      simp only [height]
      grind

theorem TaggedValue.height_le (a : TaggedValue) : height a ≤ 4 := by
  cases a with
  | never => simp [height]
  | typed type tag => cases tag <;> simp only [height, Tag.height] <;> split <;> omega

theorem finiteHeight_taggedValue : FiniteHeight TaggedValue :=
  finiteHeight_of_rank TaggedValue.height 4 TaggedValue.height_le fun _ _ => TaggedValue.height_lt

end Constants

/-! ## Stores -/

section

variable {V : Type} [Domain V] [LawfulDomain V]

/-- A chain that has reached the top stays there. -/
theorem Chain.top_mono {f : Nat → V} (chain : Chain f) {K k : Nat} (h : f K = Domain.top) (hk : K ≤ k) :
    f k = Domain.top := by
  induction k, hk using Nat.le_induction with
  | base => exact h
  | succ k hk ih => rw [← chain k, ih, LawfulDomain.top_join]

variable [DecidableEq V] {f : Nat → Store V}

theorem chain_valueOf (chain : Chain f) (p : Place) : Chain fun k => (f k).valueOf p := fun k => by
  rw [← Store.valueOf_join, chain k]

omit [LawfulDomain V] in
theorem Chain.isReachable (chain : Chain f) {K k : Nat} (reached : (f K).isReachable = true) (hk : K ≤ k) :
    (f k).isReachable = true := by
  induction k, hk using Nat.le_induction with
  | base => exact reached
  | succ k hk ih => rw [← chain k, Store.isReachable_join, ih, Bool.true_or]

/-- A chain of stores settles if the value of every place does. -/
theorem settles_of_values (canonical : ∀ k, (f k).Canonical) (chain : Chain f)
    (values : ∀ p, Settles fun k => (f k).valueOf p) : Settles f := by
  by_cases reached : ∃ K, (f K).isReachable = true
  · obtain ⟨K, hK⟩ := reached
    obtain ⟨m, hm⟩ := Store.isReachable_iff.mp hK
    obtain ⟨L, hL⟩ := exists_settlesAt (g := fun p k => (f k).valueOf p) (l := m.entries.map (·.1))
      fun p _ => values p
    refine ⟨max K L, fun k hk => ?_⟩
    have hk' : K ≤ k := by omega
    refine Store.ext_valueOf (canonical _) (canonical _) ?_ fun p => ?_
    · rw [chain.isReachable hK hk', chain.isReachable hK (Nat.le_max_left _ _)]
    · by_cases hp : p ∈ m.entries.map (·.1)
      · exact (hL p hp).mono (Nat.le_max_right K L) k hk
      · -- a place that the first known store says nothing about
        have start : (f K).valueOf p = Domain.top := by
          have absent : m.find? p = none := by
            rw [Option.eq_none_iff_forall_ne_some]
            exact fun v hv => hp (List.mem_map.mpr ⟨(p, v), SortedMap.find?_eq_some_iff.mp hv, rfl⟩)
          rw [hm, Store.valueOf, absent]
          rfl
        have all : ∀ j, K ≤ j → (f j).valueOf p = Domain.top := fun j hj => (chain_valueOf chain p).top_mono start hj
        rw [all k hk', all _ (Nat.le_max_left _ _)]
  · exact settles_const .unreachable fun k =>
      Store.not_isReachable_iff.mp (Bool.eq_false_iff.mpr fun h => reached ⟨k, h⟩)

theorem settles_chain (finite : FiniteHeight V) (canonical : ∀ k, (f k).Canonical) (chain : Chain f) :
    Settles f :=
  settles_of_values canonical chain fun p => finite _ (chain_valueOf chain p)

/-- Where a store that is widened does not lose a place, its value is widened. -/
theorem valueOf_widened {s x : Store V} (reached : s.isReachable = true) (p : Place)
    (kept : (Domain.widen s (Domain.join s x)).valueOf p ≠ Domain.top) :
    (Domain.widen s (Domain.join s x)).valueOf p
      = Domain.widen (s.valueOf p) (Domain.join (s.valueOf p) (x.valueOf p)) := by
  obtain ⟨m, rfl⟩ := Store.isReachable_iff.mp reached
  have live : (Domain.join (.known m) x).isReachable = true := by
    rw [Store.isReachable_join, reached, Bool.true_or]
  obtain ⟨n, joined⟩ := Store.isReachable_iff.mp live
  rw [← Store.valueOf_join]
  rw [joined, Store.valueOf_widen] at kept ⊢
  split at kept
  · rename_i v w hv hw
    simp only [Store.valueOf, hv, hw, Option.getD_some]
  · exact absurd rfl kept

/-- A chain of stores that from some point on is only widened settles. -/
theorem settles_widened (stable : WideningStabilises V) (canonical : ∀ k, (f k).Canonical) (chain : Chain f) {K : Nat}
    (steps : ∀ k, K ≤ k → f (k + 1) = f k ∨ ∃ x, f (k + 1) = Domain.widen (f k) (Domain.join (f k) x)) :
    Settles f := by
  refine settles_of_values canonical chain fun p => ?_
  by_cases reached : ∃ R, (f R).isReachable = true
  · obtain ⟨R, hR⟩ := reached
    by_cases lost : ∃ T, (f T).valueOf p = Domain.top
    · obtain ⟨T, hT⟩ := lost
      refine ⟨T, fun k hk => ?_⟩
      show (f k).valueOf p = (f T).valueOf p
      rw [(chain_valueOf chain p).top_mono hT hk, hT]
    · refine settles_of_wellFounded (wideningStabilises_iff.mp stable) (K := max K R) fun k hk => ?_
      by_cases still : (f (k + 1)).valueOf p = (f k).valueOf p
      · exact .inl still
      · obtain ⟨x, widened⟩ := (steps k (by omega)).resolve_left fun same => still (by rw [same])
        have value := valueOf_widened (chain.isReachable hR (by omega)) p fun top => lost ⟨k + 1, widened ▸ top⟩
        exact .inr ⟨_, below_join_left _ _, widened ▸ value, still⟩
  · refine settles_const Domain.bottom fun k => ?_
    rw [Store.not_isReachable_iff.mp (Bool.eq_false_iff.mpr fun h => reached ⟨k, h⟩)]
    rfl

end

end FlowCheck
