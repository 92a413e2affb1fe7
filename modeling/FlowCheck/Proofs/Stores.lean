/-
  FlowCheck.Proofs.Stores — stores form a domain, as far as they are canonical.

  A map is determined by its lookups (`SortedMap.ext_find?`), so writes to different keys commute.
  A store that records no top is determined by the values its places can hold (`Store.ext_valueOf`),
  and on such stores join, widening and order are pointwise, so the laws of the value domain carry
  over. Reachability needs no laws: a join or widening is reachable if one of its sides is.
-/

import FlowCheck.Domain.Store
import Mathlib.Data.List.Perm.Basic
import Mathlib.Data.List.Nodup

namespace FlowCheck

/-! ## Lookups in sorted maps -/

namespace SortedMap

variable {κ ν μ : Type} [Ord κ] [Std.TransOrd κ] [Std.LawfulEqOrd κ]

omit [Std.TransOrd κ] in
theorem find?_eq_some_iff {m : SortedMap κ ν} {k : κ} {v : ν} : m.find? k = some v ↔ (k, v) ∈ m.entries := by
  obtain ⟨l, asc⟩ := m
  simp only [find?]
  induction l with
  | nil => simp
  | cons e rest ih =>
    obtain ⟨first, asc⟩ := List.pairwise_cons.mp asc
    by_cases hk : e.1 = k
    · subst hk
      -- no later entry has the key of the first
      have later : ∀ w, (e.1, w) ∉ rest := fun w hw => by
        have := first _ hw
        simp at this
      obtain ⟨k, w⟩ := e
      simp only [List.find?_cons, isAt, Std.ReflCmp.compare_self, beq_self_eq_true, Option.map_some,
        Option.some.injEq, List.mem_cons, Prod.mk.injEq, true_and, later, or_false]
      exact eq_comm
    · have : e ≠ (k, v) := fun h => hk (h ▸ rfl)
      simp [isAt, hk, Ne.symm this, ih asc]

theorem ext_find? {a b : SortedMap κ ν} (h : ∀ k, a.find? k = b.find? k) : a = b := by
  have mem : ∀ e, e ∈ a.entries ↔ e ∈ b.entries := fun e => by
    rw [← find?_eq_some_iff, h, find?_eq_some_iff]
  have nodup : ∀ m : SortedMap κ ν, m.entries.Nodup := fun m =>
    m.ascending.imp fun {x y} hxy e => by subst e; simp at hxy
  refine ext (List.Perm.eq_of_pairwise ?_ a.ascending b.ascending
    ((List.perm_ext_iff_of_nodup (nodup a) (nodup b)).mpr mem))
  intro x y _ _ hxy hyx
  exact absurd (Std.TransCmp.lt_trans hxy hyx) (by simp)

theorem insert_insert [DecidableEq κ] (m : SortedMap κ ν) (k : κ) (v w : ν) :
    (m.insert k v).insert k w = m.insert k w := by
  refine ext_find? fun i => ?_
  simp only [find?_insert]
  split <;> rfl

theorem insert_comm [DecidableEq κ] (m : SortedMap κ ν) {k j : κ} (other : k ≠ j) (v w : ν) :
    (m.insert k v).insert j w = (m.insert j w).insert k v := by
  refine ext_find? fun i => ?_
  simp only [find?_insert]
  by_cases hj : j = i
  · rw [if_pos hj, if_neg fun hk => other (hk.trans hj.symm), if_pos hj]
  · rw [if_neg hj, if_neg hj]

omit [Std.TransOrd κ] in
theorem find?_filterMap (m : SortedMap κ ν) (f : κ → ν → Option μ) (k : κ) :
    (m.filterMap f).find? k = (m.find? k).bind (f k) := by
  ext w
  rw [find?_eq_some_iff, Option.bind_eq_some_iff]
  simp only [filterMap, List.mem_filterMap, Option.map_eq_some_iff, find?_eq_some_iff]
  constructor
  · intro h
    obtain ⟨⟨k', v⟩, hv, w', hw, e⟩ := h
    cases e
    exact ⟨v, hv, hw⟩
  · intro h
    obtain ⟨v, hv, hw⟩ := h
    exact ⟨(k, v), hv, w, hw, rfl⟩

omit [Std.TransOrd κ] in
theorem find?_intersectWith (f : ν → ν → Option μ) (a b : SortedMap κ ν) (k : κ) :
    (intersectWith f a b).find? k = (a.find? k).bind fun v => (b.find? k).bind (f v) :=
  find?_filterMap a _ k

omit [Std.TransOrd κ] in
theorem find?_filter (m : SortedMap κ ν) (p : κ → ν → Bool) (k : κ) :
    (m.filter p).find? k = (m.find? k).filter (p k) := by
  ext v
  rw [find?_eq_some_iff, Option.filter_eq_some_iff, find?_eq_some_iff]
  simp [filter]

end SortedMap

/-! ## Values and laws -/

section Laws

variable {V : Type} [Domain V] [LawfulDomain V]

open Domain

theorem join_bottom (a : V) : join a bottom = a := by
  rw [LawfulDomain.join_comm, LawfulDomain.bottom_join]

theorem join_top (a : V) : join a top = (top : V) := by
  rw [LawfulDomain.join_comm, LawfulDomain.top_join]

theorem join_widen_left (a b : V) : join a (widen a b) = widen a b :=
  (LawfulDomain.below_iff _ _).mp (LawfulDomain.widen_left a b)

theorem join_widen_right (a b : V) : join b (widen a b) = widen a b :=
  (LawfulDomain.below_iff _ _).mp (LawfulDomain.widen_right a b)

theorem below_self (a : V) : below a a = true := (LawfulDomain.below_iff a a).mpr (LawfulDomain.join_self a)

theorem bottom_below (a : V) : below bottom a = true := (LawfulDomain.below_iff _ _).mpr (LawfulDomain.bottom_join a)

theorem below_top (a : V) : below a (top : V) = true := (LawfulDomain.below_iff _ _).mpr (join_top a)

theorem below_join_left (a b : V) : below a (join a b) = true := by
  rw [LawfulDomain.below_iff, LawfulDomain.join_assoc, LawfulDomain.join_self]

theorem below_join_right (a b : V) : below b (join a b) = true := by
  rw [LawfulDomain.join_comm]
  exact below_join_left b a

theorem join_below {a b c : V} (ac : below a c = true) (bc : below b c = true) : below (join a b) c = true := by
  rw [LawfulDomain.below_iff] at *
  rw [← LawfulDomain.join_assoc, bc, ac]

theorem below_trans {a b c : V} (ab : below a b = true) (bc : below b c = true) : below a c = true := by
  rw [LawfulDomain.below_iff] at *
  rw [← bc, LawfulDomain.join_assoc, ab]

theorem below_antisymm {a b : V} (ab : below a b = true) (ba : below b a = true) : a = b := by
  rw [LawfulDomain.below_iff] at *
  rw [← ab, LawfulDomain.join_comm, ba]

/-- Every element of a list is below the join of the list. -/
theorem below_joinAll {l : List V} {a : V} (h : a ∈ l) : below a (joinAll l) = true := by
  suffices ∀ b, below a b = true ∨ a ∈ l → below a (l.foldl join b) = true from this bottom (.inr h)
  clear h
  induction l with
  | nil => exact fun b h => h.resolve_right List.not_mem_nil
  | cons c l ih =>
    intro b h
    refine ih _ ?_
    rcases h with h | h
    · exact .inl (below_trans h (below_join_left b c))
    · rcases List.mem_cons.mp h with rfl | h
      · exact .inl (below_join_right b a)
      · exact .inr h

end Laws

/-! ## Reachability -/

namespace Store

variable {V : Type}

@[simp] theorem isReachable_unreachable : (unreachable : Store V).isReachable = false := rfl

@[simp] theorem isReachable_known (m : SortedMap Place V) : (known m).isReachable = true := rfl

@[simp] theorem isReachable_blank : (blank : Store V).isReachable = true := rfl

theorem isReachable_iff {s : Store V} : s.isReachable = true ↔ ∃ m, s = .known m := by
  cases s <;> simp [isReachable]

theorem not_isReachable_iff {s : Store V} : s.isReachable = false ↔ s = .unreachable := by
  cases s <;> simp [isReachable]

variable [Domain V] [DecidableEq V]

theorem isReachable_combine (op : V → V → V) (a b : Store V) :
    (combine op a b).isReachable = (a.isReachable || b.isReachable) := by
  cases a <;> cases b <;> rfl

theorem isReachable_join (a b : Store V) :
    (Domain.join a b).isReachable = (a.isReachable || b.isReachable) := isReachable_combine _ a b

theorem isReachable_widen (a b : Store V) :
    (Domain.widen a b).isReachable = (a.isReachable || b.isReachable) := isReachable_combine _ a b

@[simp] theorem unreachable_join (a : Store V) : Domain.join .unreachable a = a := by
  cases a <;> rfl

@[simp] theorem join_unreachable (a : Store V) : Domain.join a .unreachable = a := by
  cases a <;> rfl

/-- Nothing is known where one side knows nothing. -/
theorem blank_join (a : Store V) : Domain.join blank a = blank := by
  cases a <;> rfl

theorem isReachable_set (s : Store V) (p : Place) (v : V) : (s.set p v).isReachable = s.isReachable := by
  cases s <;> rfl

omit [Domain V] [DecidableEq V] in
theorem isReachable_forgetFields (s : Store V) : s.forgetFields.isReachable = s.isReachable := by
  cases s <;> rfl

theorem isReachable_foldl_join (l : List (Store V)) (a : Store V) :
    (l.foldl Domain.join a).isReachable = (a.isReachable || l.any isReachable) := by
  induction l generalizing a with
  | nil => simp
  | cons b l ih => rw [List.foldl_cons, ih, isReachable_join, List.any_cons, Bool.or_assoc]

theorem isReachable_joinAll (l : List (Store V)) : (Domain.joinAll l).isReachable = l.any isReachable := by
  rw [Domain.joinAll, isReachable_foldl_join]; rfl

/-! ## Canonical stores -/

/-- No place is recorded with the value top. -/
def Canonical (s : Store V) : Prop := ∀ p v, s.find? p = some v → v ≠ Domain.top

omit [DecidableEq V] in
theorem canonical_unreachable : (unreachable : Store V).Canonical := fun _ _ h => by cases h

omit [DecidableEq V] in
theorem canonical_blank : (blank : Store V).Canonical := fun _ _ h => by cases h

theorem informative_eq_some_iff {v w : V} : informative v = some w ↔ v = w ∧ w ≠ Domain.top := by
  unfold informative Domain.isTop
  by_cases h : v = Domain.top
  · simp only [h, decide_true, if_true, reduceCtorEq, false_iff, not_and, not_not]
    exact fun e => e.symm
  · simp only [h, decide_false, Bool.false_eq_true, if_false, Option.some.injEq]
    exact ⟨fun e => ⟨e, e ▸ h⟩, And.left⟩

@[simp] theorem informative_getD (v : V) : (informative v).getD Domain.top = v := by
  unfold informative Domain.isTop
  by_cases h : v = Domain.top <;> simp [h]

theorem canonical_combine (op : V → V → V) {a b : Store V} (ha : a.Canonical) (hb : b.Canonical) :
    (combine op a b).Canonical := by
  cases a with
  | unreachable => cases b <;> exact hb
  | known m =>
    cases b with
    | unreachable => exact ha
    | known n =>
      intro p v h
      simp only [combine, find?, SortedMap.find?_intersectWith, Option.bind_eq_some_iff] at h
      obtain ⟨_, _, _, _, h⟩ := h
      exact (informative_eq_some_iff.mp h).2

theorem canonical_join {a b : Store V} (ha : a.Canonical) (hb : b.Canonical) : (Domain.join a b).Canonical :=
  canonical_combine _ ha hb

theorem canonical_widen {a b : Store V} (ha : a.Canonical) (hb : b.Canonical) : (Domain.widen a b).Canonical :=
  canonical_combine _ ha hb

theorem canonical_set {s : Store V} (hs : s.Canonical) (p : Place) (v : V) : (s.set p v).Canonical := by
  cases s with
  | unreachable => exact hs
  | known m =>
    intro q w h
    unfold set Domain.isTop at h
    by_cases hv : v = Domain.top
    · simp only [hv, decide_true, if_true, find?, SortedMap.find?_erase] at h
      split at h
      · cases h
      · exact hs q w h
    · simp only [hv, decide_false, Bool.false_eq_true, if_false, find?, SortedMap.find?_insert] at h
      split at h
      · cases h; exact hv
      · exact hs q w h

omit [DecidableEq V] in
theorem canonical_forgetFields {s : Store V} (hs : s.Canonical) : s.forgetFields.Canonical := by
  cases s with
  | unreachable => exact hs
  | known m =>
    intro q w h
    simp only [forgetFields, find?, SortedMap.find?_filter, Option.filter_eq_some_iff] at h
    exact hs q w h.1

/-! ## The laws of canonical stores -/

omit [DecidableEq V] in
/-- What a canonical store records is what its places can hold, unless that is anything. -/
theorem ext_valueOf {a b : Store V} (ha : a.Canonical) (hb : b.Canonical)
    (same : a.isReachable = b.isReachable) (h : ∀ p, a.valueOf p = b.valueOf p) : a = b := by
  cases a with
  | unreachable => exact (not_isReachable_iff.mp same.symm).symm
  | known m =>
    obtain ⟨n, rfl⟩ := isReachable_iff.mp same.symm
    congr 1
    refine SortedMap.ext_find? fun p => ?_
    have hp := h p
    simp only [valueOf] at hp
    cases hm : m.find? p with
    | none =>
      cases hn : n.find? p with
      | none => rfl
      | some w => rw [hm, hn] at hp; exact absurd hp.symm (hb p w hn)
    | some v =>
      cases hn : n.find? p with
      | none => rw [hm, hn] at hp; exact absurd hp (ha p v hm)
      | some w => rw [hm, hn] at hp; exact congrArg some hp

variable [LawfulDomain V]

theorem valueOf_join {a b : Store V} (p : Place) :
    (Domain.join a b).valueOf p = Domain.join (a.valueOf p) (b.valueOf p) := by
  cases a with
  | unreachable =>
    rw [unreachable_join]; exact (LawfulDomain.bottom_join _).symm
  | known m =>
    cases b with
    | unreachable => rw [join_unreachable]; exact (join_bottom _).symm
    | known n =>
      show ((m.intersectWith _ n).find? p).getD Domain.top = _
      rw [SortedMap.find?_intersectWith]
      simp only [valueOf]
      cases m.find? p with
      | none => exact (LawfulDomain.top_join _).symm
      | some v =>
        cases n.find? p with
        | none => exact (join_top _).symm
        | some w => exact informative_getD _

omit [LawfulDomain V] in
/-- A widening of reachable stores knows a place only if both do. -/
theorem valueOf_widen (m n : SortedMap Place V) (p : Place) :
    (Domain.widen (known m) (known n)).valueOf p =
      match m.find? p, n.find? p with
      | some v, some w => Domain.widen v w
      | _, _ => Domain.top := by
  show ((m.intersectWith _ n).find? p).getD Domain.top = _
  rw [SortedMap.find?_intersectWith]
  cases m.find? p with
  | none => rfl
  | some v =>
    cases n.find? p with
    | none => rfl
    | some w => exact informative_getD _

section

variable {a b c : Store V} (ha : a.Canonical) (hb : b.Canonical) (hc : c.Canonical)

include ha hb

theorem join_comm : Domain.join a b = Domain.join b a := by
  refine ext_valueOf (canonical_join ha hb) (canonical_join hb ha) ?_ fun p => ?_
  · rw [isReachable_join, isReachable_join, Bool.or_comm]
  · rw [valueOf_join, valueOf_join, LawfulDomain.join_comm]

include hc in
theorem join_assoc : Domain.join a (Domain.join b c) = Domain.join (Domain.join a b) c := by
  refine ext_valueOf (canonical_join ha (canonical_join hb hc)) (canonical_join (canonical_join ha hb) hc) ?_
    fun p => ?_
  · simp only [isReachable_join, Bool.or_assoc]
  · simp only [valueOf_join, LawfulDomain.join_assoc]

omit hb in
theorem join_self : Domain.join a a = a := by
  refine ext_valueOf (canonical_join ha ha) ha ?_ fun p => ?_
  · rw [isReachable_join, Bool.or_self]
  · rw [valueOf_join, LawfulDomain.join_self]

theorem join_join_right : Domain.join (Domain.join a b) b = Domain.join a b := by
  rw [← join_assoc ha hb hb, join_self hb]

theorem join_widen_left : Domain.join a (Domain.widen a b) = Domain.widen a b := by
  refine ext_valueOf (canonical_join ha (canonical_widen ha hb)) (canonical_widen ha hb) ?_ fun p => ?_
  · rw [isReachable_join, isReachable_widen, ← Bool.or_assoc, Bool.or_self]
  · rw [valueOf_join]
    cases a with
    | unreachable => exact LawfulDomain.bottom_join _
    | known m =>
      cases b with
      | unreachable => exact LawfulDomain.join_self _
      | known n =>
        rw [valueOf_widen]
        split
        · rename_i v _ hm _
          simpa [valueOf, hm] using FlowCheck.join_widen_left v _
        · exact join_top _

theorem join_widen_right : Domain.join b (Domain.widen a b) = Domain.widen a b := by
  refine ext_valueOf (canonical_join hb (canonical_widen ha hb)) (canonical_widen ha hb) ?_ fun p => ?_
  · rw [isReachable_join, isReachable_widen, Bool.or_comm, Bool.or_assoc, Bool.or_self]
  · rw [valueOf_join]
    cases b with
    | unreachable => exact LawfulDomain.bottom_join _
    | known n =>
      cases a with
      | unreachable => exact LawfulDomain.join_self _
      | known m =>
        rw [valueOf_widen]
        split
        · rename_i v w _ hn
          simpa [valueOf, hn] using FlowCheck.join_widen_right v w
        · exact join_top _

end

/-! ## The order of canonical stores -/

/-- One store is below another if it is reachable only where the other is, and its values are below. -/
theorem below_iff_valueOf {a b : Store V} (hb : b.Canonical) :
    Domain.below a b = true ↔
      (a.isReachable = true → b.isReachable = true) ∧ ∀ p, Domain.below (a.valueOf p) (b.valueOf p) = true := by
  cases a with
  | unreachable =>
    have least : Domain.below (unreachable : Store V) b = true := rfl
    simp [least, valueOf, bottom_below]
  | known m =>
    cases b with
    | unreachable =>
      have apart : Domain.below (known m) (unreachable : Store V) = false := rfl
      simp [apart]
    | known n =>
      have entries : Domain.below (known m) (known n) = true ↔
          ∀ p v, n.find? p = some v → ∃ w, m.find? p = some w ∧ Domain.below w v = true := by
        show (n.entries.all fun e => (m.find? e.1).any (Domain.below · e.2)) = true ↔ _
        simp only [List.all_eq_true, Prod.forall, SortedMap.find?_eq_some_iff (m := n), Option.any_eq_true]
      rw [entries]
      simp only [isReachable_known, valueOf, true_and, forall_const]
      constructor
      · intro h p
        cases hn : n.find? p with
        | none => exact below_top _
        | some v =>
          obtain ⟨w, hw, le⟩ := h p v hn
          rwa [hw]
      · intro h p v hn
        have le := h p
        rw [hn] at le
        cases hm : m.find? p with
        | none =>
          -- nothing but the top is above the top
          rw [hm] at le
          have above := (LawfulDomain.below_iff _ _).mp le
          rw [Option.getD_none, LawfulDomain.top_join] at above
          exact absurd above.symm (hb p v hn)
        | some w =>
          rw [hm] at le
          exact ⟨w, rfl, le⟩

theorem valueOf_joinAll (l : List (Store V)) (p : Place) :
    (Domain.joinAll l).valueOf p = Domain.joinAll (l.map (·.valueOf p)) := by
  suffices ∀ a : Store V, (l.foldl Domain.join a).valueOf p = (l.map (·.valueOf p)).foldl Domain.join (a.valueOf p) from
    this .unreachable
  induction l with
  | nil => exact fun _ => rfl
  | cons b l ih =>
    intro a
    rw [List.foldl_cons, ih, valueOf_join]
    rfl

section

variable {a b c : Store V}

omit [LawfulDomain V] in
theorem unreachable_below (a : Store V) : Domain.below .unreachable a = true := rfl

theorem below_refl (ha : a.Canonical) : Domain.below a a = true :=
  (below_iff_valueOf ha).mpr ⟨id, fun _ => FlowCheck.below_self _⟩

theorem below_trans (hb : b.Canonical) (hc : c.Canonical) (ab : Domain.below a b = true)
    (bc : Domain.below b c = true) : Domain.below a c = true := by
  rw [below_iff_valueOf hb] at ab
  rw [below_iff_valueOf hc] at bc
  exact (below_iff_valueOf hc).mpr ⟨fun h => bc.1 (ab.1 h), fun p => FlowCheck.below_trans (ab.2 p) (bc.2 p)⟩

theorem below_join_left (ha : a.Canonical) (hb : b.Canonical) : Domain.below a (Domain.join a b) = true := by
  refine (below_iff_valueOf (canonical_join ha hb)).mpr ⟨fun h => ?_, fun p => ?_⟩
  · rw [isReachable_join, h, Bool.true_or]
  · rw [valueOf_join]; exact FlowCheck.below_join_left _ _

theorem below_join_right (ha : a.Canonical) (hb : b.Canonical) : Domain.below b (Domain.join a b) = true := by
  rw [join_comm ha hb]
  exact below_join_left hb ha

theorem join_below (hc : c.Canonical) (ac : Domain.below a c = true) (bc : Domain.below b c = true) :
    Domain.below (Domain.join a b) c = true := by
  rw [below_iff_valueOf hc] at *
  refine ⟨fun h => ?_, fun p => ?_⟩
  · rw [isReachable_join, Bool.or_eq_true] at h
    exact h.elim ac.1 bc.1
  · rw [valueOf_join]; exact FlowCheck.join_below (ac.2 p) (bc.2 p)

/-- On canonical stores the order is that of the join. -/
theorem below_iff_join (ha : a.Canonical) (hb : b.Canonical) :
    Domain.below a b = true ↔ Domain.join a b = b := by
  constructor
  · intro h
    obtain ⟨reach, values⟩ := (below_iff_valueOf hb).mp h
    refine ext_valueOf (canonical_join ha hb) hb ?_ fun p => ?_
    · rw [isReachable_join]
      cases live : a.isReachable with
      | false => exact Bool.false_or _
      | true => rw [reach live, Bool.or_self]
    · rw [valueOf_join]
      exact (LawfulDomain.below_iff _ _).mp (values p)
  · intro h
    rw [← h]
    exact below_join_left ha hb

theorem below_widen_left (ha : a.Canonical) (hb : b.Canonical) : Domain.below a (Domain.widen a b) = true :=
  (below_iff_join ha (canonical_widen ha hb)).mpr (join_widen_left ha hb)

theorem below_widen_right (ha : a.Canonical) (hb : b.Canonical) : Domain.below b (Domain.widen a b) = true :=
  (below_iff_join hb (canonical_widen ha hb)).mpr (join_widen_right ha hb)

/-- A widening with more than is there changes something. -/
theorem widen_join_ne (ha : a.Canonical) (hb : b.Canonical) (new : Domain.join a b ≠ a) :
    Domain.widen a (Domain.join a b) ≠ a := by
  intro same
  have joined := canonical_join ha hb
  apply new
  calc Domain.join a b
      = Domain.join (Domain.join a b) a := by rw [join_comm joined ha, join_assoc ha ha hb, join_self ha]
    _ = Domain.join (Domain.join a b) (Domain.widen a (Domain.join a b)) := by rw [same]
    _ = Domain.widen a (Domain.join a b) := join_widen_right ha joined
    _ = a := same

theorem below_joinAll {l : List (Store V)} (canonical : (Domain.joinAll l).Canonical) (h : a ∈ l) :
    Domain.below a (Domain.joinAll l) = true := by
  refine (below_iff_valueOf canonical).mpr ⟨fun live => ?_, fun p => ?_⟩
  · rw [isReachable_joinAll, List.any_eq_true]
    exact ⟨a, h, live⟩
  · rw [valueOf_joinAll]
    exact FlowCheck.below_joinAll (List.mem_map.mpr ⟨a, h, rfl⟩)

end

/-! ## Writing to larger stores -/

omit [LawfulDomain V] in
theorem valueOf_set (m : SortedMap Place V) (p q : Place) (v : V) :
    ((known m).set p v).valueOf q = if p = q then v else (known m).valueOf q := by
  by_cases top : v = Domain.top
  · by_cases e : p = q <;> simp [set, Domain.isTop, top, valueOf, SortedMap.find?_erase, e]
  · by_cases e : p = q <;> simp [set, Domain.isTop, top, valueOf, SortedMap.find?_insert, e]

omit [LawfulDomain V] [DecidableEq V] in
theorem valueOf_forgetFields (m : SortedMap Place V) (q : Place) :
    (known m).forgetFields.valueOf q = if q.isField = true then Domain.top else (known m).valueOf q := by
  simp only [forgetFields, valueOf, SortedMap.find?_filter]
  cases m.find? q <;> cases q.isField <;> rfl

/-- An update that is defined on known stores keeps the order if it does so for every value. -/
theorem below_of_values {a b a' b' : Store V} (hb : b.Canonical) (hb' : b'.Canonical)
    (below : Domain.below a b = true) (ra : a'.isReachable = a.isReachable) (rb : b'.isReachable = b.isReachable)
    (values : ∀ m n, a = known m → b = known n → ∀ p, Domain.below (a'.valueOf p) (b'.valueOf p) = true) :
    Domain.below a' b' = true := by
  have reach := ((below_iff_valueOf hb).mp below).1
  refine (below_iff_valueOf hb').mpr ⟨fun live => ?_, fun p => ?_⟩
  · rw [rb]
    exact reach (ra ▸ live)
  · cases live : a.isReachable with
    | false =>
      rw [not_isReachable_iff.mp (ra.trans live)]
      exact bottom_below _
    | true =>
      obtain ⟨m, hm⟩ := isReachable_iff.mp live
      obtain ⟨n, hn⟩ := isReachable_iff.mp (reach live)
      exact values m n hm hn p

theorem below_set {a b : Store V} (hb : b.Canonical) (h : Domain.below a b = true) (p : Place) {v w : V}
    (le : Domain.below v w = true) : Domain.below (a.set p v) (b.set p w) = true := by
  refine below_of_values hb (canonical_set hb p w) h (isReachable_set a p v) (isReachable_set b p w) ?_
  rintro m n rfl rfl q
  rw [valueOf_set, valueOf_set]
  split
  · exact le
  · exact ((below_iff_valueOf hb).mp h).2 q

theorem below_forgetFields {a b : Store V} (hb : b.Canonical) (h : Domain.below a b = true) :
    Domain.below a.forgetFields b.forgetFields = true := by
  refine below_of_values hb (canonical_forgetFields hb) h (isReachable_forgetFields a) (isReachable_forgetFields b) ?_
  rintro m n rfl rfl q
  rw [valueOf_forgetFields, valueOf_forgetFields]
  split
  · exact below_self _
  · exact ((below_iff_valueOf hb).mp h).2 q

end Store

end FlowCheck
