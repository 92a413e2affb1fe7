/-
  FlowCheck.Proofs.Groups — a validator accepts exactly the legal extensions of a group.

  `Legal` says which constants may form a group: integers or texts, of one type and one pattern,
  each with a literal of its own, and powers of two under the pattern for flags. The rules the
  validator goes through (`admissible_eq_ok_iff`) look at the group's record, not at its constants,
  and some of them only at its first constant. That is enough because the record is the one of the
  constants accepted so far (`Group.ofConstants`), and those are legal: `kept_judgeAll` carries both
  facts through every run, with any number of groups interleaved.

  Whether a value is a power of two is asked of the bits of its word; `isPowerOfTwo_iff` is what that says
  of the value, and `pred_exact` that the word before it is never out of range.
-/

import FlowCheck.Constants.Validator
import FlowCheck.Proofs.Stores
import Mathlib.Algebra.Group.Nat.Defs
import Mathlib.Algebra.Ring.Int.Defs
import Mathlib.Data.List.Induction
import Mathlib.Data.List.Nodup

namespace FlowCheck

/-! ## Sets as sorted maps -/

namespace SortedMap

variable {κ ν : Type} [Ord κ] [Std.TransOrd κ] [Std.LawfulEqOrd κ] [DecidableEq κ]

theorem contains_insert (m : SortedMap κ ν) (k j : κ) (v : ν) :
    (m.insert k v).contains j = true ↔ k = j ∨ m.contains j = true := by
  unfold contains
  rw [find?_insert]
  split <;> simp [*]

omit [Std.LawfulEqOrd κ] [DecidableEq κ] in
theorem setOf_append (l : List κ) (k : κ) : setOf (l ++ [k]) = (setOf l).insert k () := by
  simp [setOf, ofList]

theorem contains_setOf (l : List κ) (k : κ) : (setOf l).contains k = true ↔ k ∈ l := by
  induction l using List.reverseRecOn with
  | nil => simp [setOf, ofList, contains]
  | append_singleton l j ih => rw [setOf_append, contains_insert, ih, List.mem_append, List.mem_singleton, or_comm, eq_comm]

omit [Std.TransOrd κ] [DecidableEq κ] in
theorem length_insertEntry {k : κ} (v : ν) {l : List (κ × ν)} (new : ∀ e ∈ l, e.1 ≠ k) :
    (insertEntry k v l).length = l.length + 1 := by
  induction l with
  | nil => rfl
  | cons e l ih =>
    rw [insertEntry]
    split
    · rfl
    · rename_i same
      exact absurd (Std.LawfulEqOrd.compare_eq_iff_eq.mp same).symm (new e List.mem_cons_self)
    · rw [List.length_cons, ih fun d hd => new d (List.mem_cons_of_mem _ hd), List.length_cons]

omit [DecidableEq κ] in
theorem size_insert {m : SortedMap κ ν} {k : κ} (v : ν) (new : m.contains k = false) :
    (m.insert k v).size = m.size + 1 := by
  refine length_insertEntry v fun e he same => ?_
  have found := find?_eq_some_iff.mpr (show (e.1, e.2) ∈ m.entries from he)
  rw [contains, ← same, found] at new
  cases new

theorem size_setOf {l : List κ} (nodup : l.Nodup) : (setOf l).size = l.length := by
  induction l using List.reverseRecOn with
  | nil => rfl
  | append_singleton l k ih =>
    have apart := List.disjoint_of_nodup_append nodup
    have new : (setOf l).contains k = false := by
      rw [← Bool.not_eq_true, contains_setOf]
      exact fun h => apart h (List.mem_singleton.mpr rfl)
    rw [setOf_append, size_insert () new, ih nodup.of_append_left, List.length_append]
    rfl

end SortedMap

namespace Constants

/-! ## Powers of two, on words -/

theorem and_pred_eq_zero_iff {n : Nat} (positive : n ≠ 0) : n &&& (n - 1) = 0 ↔ ∃ k, n = 2 ^ k := by
  constructor
  · intro apart
    refine ⟨n.log2, ?_⟩
    by_contra more
    have low := Nat.log2_self_le positive
    have high := Nat.lt_log2_self (n := n)
    have one := Nat.one_le_two_pow (n := n.log2)
    -- above the power the predecessor has the highest bit of `n`, too
    have same : (n - 1).log2 = n.log2 := (Nat.log2_eq_iff (by omega)).mpr (by omega)
    have shared : (n &&& (n - 1)).testBit n.log2 = true := by
      rw [Nat.testBit_and, Nat.testBit_log2 positive, ← same, Nat.testBit_log2 (by omega)]
      rfl
    rw [apart, Nat.zero_testBit] at shared
    cases shared
  · intro h
    obtain ⟨k, rfl⟩ := h
    rw [Nat.and_two_pow_sub_one_eq_mod, Nat.mod_self]

/-- The word of a number that is not negative is that number. -/
theorem natCast_toNat {v : Int64} (h : 0 ≤ v.toInt) : (v.toBitVec.toNat : Int) = v.toInt := by
  have msb : v.toBitVec.msb = false := by
    rw [BitVec.msb_eq_toInt, decide_eq_false_iff_not, Int64.toInt_toBitVec]
    exact Int.not_lt.mpr h
  rw [← BitVec.toInt_eq_toNat_of_msb msb, Int64.toInt_toBitVec]

/-- Where the test takes 1 from a number, nothing overflows. -/
theorem pred_exact {v : Int64} (positive : ¬v ≤ 0) :
    v.toBitVec.ssubOverflow 1 = false ∧ (v - 1).toInt = v.toInt - 1 := by
  have : (0 : Int64).toInt < v.toInt := Int64.lt_iff_toInt_lt.mp (Int64.not_le.mp positive)
  have zero : (0 : Int64).toInt = 0 := rfl
  have one : (1 : BitVec 64).toInt = 1 := by decide
  have := v.toInt_lt
  have sub : v.toBitVec.ssubOverflow 1 = false := by
    simp only [BitVec.ssubOverflow, Int64.toInt_toBitVec, one, Bool.or_eq_false_iff, decide_eq_false_iff_not]
    constructor <;> omega
  refine ⟨sub, ?_⟩
  rw [← Int64.toInt_toBitVec, Int64.toBitVec_sub]
  exact (BitVec.toInt_sub_of_not_ssubOverflow (Bool.eq_false_iff.mp sub)).trans (by rw [one, Int64.toInt_toBitVec])

theorem isPowerOfTwo_iff {v : Int64} : isPowerOfTwo v = true ↔ ∃ k : Nat, v.toInt = 2 ^ k := by
  unfold isPowerOfTwo
  by_cases none : v ≤ 0
  · have low : v.toInt ≤ 0 := Int64.le_iff_toInt_le.mp none
    refine iff_of_false (by simp [none]) fun ⟨k, power⟩ => ?_
    have : (0 : Int) < 2 ^ k := Int.pow_pos (by decide)
    omega
  · have positive : 0 < v.toInt := Int64.lt_iff_toInt_lt.mp (Int64.not_le.mp none)
    have word := natCast_toNat (Int.le_of_lt positive)
    have pred : (v - 1).toBitVec.toNat = v.toBitVec.toNat - 1 := by
      have value := (pred_exact none).2
      have := natCast_toNat (v := v - 1) (by omega)
      omega
    calc (!(decide (v ≤ 0) || v &&& (v - 1) != 0)) = true
        ↔ v &&& (v - 1) = 0 := by simp [none]
      _ ↔ v.toBitVec.toNat &&& (v.toBitVec.toNat - 1) = 0 := by
          rw [← Int64.toBitVec_inj, ← BitVec.toNat_inj, Int64.toBitVec_and, BitVec.toNat_and, pred]
          rfl
      _ ↔ ∃ k : Nat, v.toBitVec.toNat = 2 ^ k := and_pred_eq_zero_iff (by omega)
      _ ↔ ∃ k : Nat, v.toInt = 2 ^ k :=
          exists_congr fun k => by rw [← word, ← Int.natCast_inj, Int.natCast_pow]; rfl

/-- The word of the least value has a single bit, and is no power of two. -/
example : isPowerOfTwo Int64.minValue = false ∧ isPowerOfTwo 4 = true ∧ isPowerOfTwo 6 = false := by decide

/-- The word of a power of two is that power. -/
theorem toNat_of_power {v : Int64} {k : Nat} (power : v.toInt = 2 ^ k) : v.toBitVec.toNat = 2 ^ k := by
  have positive : (0 : Int) < 2 ^ k := Int.pow_pos (by decide)
  apply Int.natCast_inj.mp
  rw [natCast_toNat (by omega), power, Int.natCast_pow]
  rfl

theorem and_eq_zero {v w : Int64} {i j : Nat} (hv : v.toInt = 2 ^ i) (hw : w.toInt = 2 ^ j) (other : v ≠ w) :
    v &&& w = 0 := by
  have apart : i ≠ j := fun e => other (Int64.toInt_inj.mp (by rw [hv, hw, e]))
  apply Int64.toBitVec_inj.mp
  apply BitVec.eq_of_toNat_eq
  rw [Int64.toBitVec_and, BitVec.toNat_and, toNat_of_power hv, toNat_of_power hw]
  refine Nat.eq_of_testBit_eq fun k => ?_
  rw [Nat.testBit_and, Nat.testBit_two_pow, Nat.testBit_two_pow]
  simp
  omega

/-! ## Legal groups -/

structure Legal (l : List Field) : Prop where
  /-- Integers or texts. -/
  scalar : ∀ f ∈ l, f.type = .int ∨ f.type = .text
  alike : ∀ f ∈ l, ∀ h ∈ l, f.type = h.type ∧ f.pattern = h.pattern
  /-- The other patterns make sense of integers only. -/
  textual : ∀ f ∈ l, f.type = .text → f.pattern = .unconstrained
  literal : ∀ f ∈ l, ∃ value, f.initializer = some value ∧ value.type = f.type
  distinct : (l.map (·.initializer)).Nodup
  powers : ∀ f ∈ l, f.pattern = .flags → ∃ v : Int64, f.initializer = some (.int v) ∧ ∃ k : Nat, v.toInt = 2 ^ k

/-- What a legal list asks of one more constant. -/
theorem Legal.append_iff {l : List Field} {f : Field} (legal : Legal l) :
    Legal (l ++ [f]) ↔
      (f.type = .int ∨ f.type = .text) ∧ (∀ h ∈ l, f.type = h.type ∧ f.pattern = h.pattern) ∧
        (f.type = .text → f.pattern = .unconstrained) ∧
        (∃ value, f.initializer = some value ∧ value.type = f.type) ∧ f.initializer ∉ l.map (·.initializer) ∧
        (f.pattern = .flags → ∃ v : Int64, f.initializer = some (.int v) ∧ ∃ k : Nat, v.toInt = 2 ^ k) := by
  have last : f ∈ l ++ [f] := List.mem_append_right _ List.mem_cons_self
  constructor
  · intro h
    have new := h.distinct
    rw [List.map_append, List.nodup_append'] at new
    refine ⟨h.scalar f last, fun k hk => h.alike f last k (List.mem_append_left _ hk), h.textual f last,
      h.literal f last, fun seen => new.2.2 seen List.mem_cons_self, h.powers f last⟩
  · intro h
    obtain ⟨scalar, alike, textual, literal, new, powers⟩ := h
    have each {P : Field → Prop} (hl : ∀ k ∈ l, P k) (hf : P f) : ∀ k ∈ l ++ [f], P k :=
      List.forall_mem_append.mpr ⟨hl, List.forall_mem_singleton.mpr hf⟩
    refine ⟨each legal.scalar scalar, ?_, each legal.textual textual, each legal.literal literal, ?_,
      each legal.powers powers⟩
    · refine each (fun h hh => each (legal.alike h hh) ?_) (each alike ⟨rfl, rfl⟩)
      exact ⟨(alike h hh).1.symm, (alike h hh).2.symm⟩
    · rw [List.map_append, List.nodup_append']
      refine ⟨legal.distinct, List.nodup_singleton _, fun x hx hf => new ?_⟩
      rwa [List.mem_singleton.mp hf] at hx

theorem legal_nil : Legal [] where
  scalar _ h := by cases h
  alike _ h := by cases h
  textual _ h := by cases h
  literal _ h := by cases h
  distinct := List.nodup_nil
  powers _ h := by cases h

/-! ## The rules of admission -/

theorem contribution?_eq_some_iff {f : Field} (scalar : f.type = .int ∨ f.type = .text) {value : Literal} :
    contribution? f = some value ↔ f.initializer = some value ∧ value.type = f.type := by
  unfold contribution?
  rcases scalar with e | e <;> rw [e]
  all_goals
    cases f.initializer with
    | none => simp
    | some literal => cases literal <;> cases value <;> simp [Literal.type]

/-- Every rule a constant passes on its way into a group. -/
theorem admissible_eq_ok_iff {name : String} {g : Option Group} {f : Field} {value : Literal} :
    admissible name g f = .ok value ↔
      (f.type = .int ∨ f.type = .text) ∧ (∀ r, g = some r → f.type = r.type ∧ f.pattern = r.pattern) ∧
        (g = none → f.type = .text → f.pattern = .unconstrained) ∧ contribution? f = some value ∧
        (∀ r, g = some r → r.values.contains value = false) ∧
        (f.pattern = .flags → ∀ v, value = .int v → isPowerOfTwo v = true) := by
  unfold admissible
  simp only [bind, Except.bind, pure, Except.pure, throw, throwThe, MonadExceptOf.throw]
  cases g with
  | none =>
    cases hc : contribution? f with
    | none => grind [Pattern.isNumeric]
    | some literal => cases literal <;> grind [Pattern.isNumeric]
  | some r =>
    cases hc : contribution? f with
    | none => grind
    | some literal => cases literal <;> grind

/-! ## The record of a group -/

namespace GroupValues

def int? : Literal → Option Int
  | .int v => some v.toInt
  | _ => none

def text? : Literal → Option String
  | .text v => some v
  | _ => none

theorem int?_inj {a b : Literal} {n : Int} (ha : int? a = some n) (hb : int? b = some n) : a = b := by
  cases a with
  | int v =>
    cases b with
    | int w => rw [Int64.toInt_inj.mp ((Option.some.inj ha).trans (Option.some.inj hb).symm)]
    | _ => cases hb
  | _ => cases ha

theorem text?_inj {a b : Literal} {t : String} (ha : text? a = some t) (hb : text? b = some t) : a = b := by
  cases a with
  | text v =>
    cases b with
    | text w => rw [Option.some.inj (ha.trans hb.symm)]
    | _ => cases hb
  | _ => cases ha

def ofLiterals (type : ValueType) (l : List Literal) : GroupValues :=
  if type = .text then .texts (.setOf (l.filterMap text?)) else .integers (.setOf (l.filterMap int?))

theorem mem_filterMap_int? {l : List Literal} {v : Int64} : v.toInt ∈ l.filterMap int? ↔ .int v ∈ l := by
  rw [List.mem_filterMap]
  constructor
  · intro h
    obtain ⟨literal, hl, e⟩ := h
    cases literal with
    | int w => exact Int64.toInt_inj.mp (Option.some.inj e) ▸ hl
    | _ => cases e
  · exact fun h => ⟨_, h, rfl⟩

theorem mem_filterMap_text? {l : List Literal} {v : String} : v ∈ l.filterMap text? ↔ .text v ∈ l := by
  rw [List.mem_filterMap]
  constructor
  · intro h
    obtain ⟨literal, hl, e⟩ := h
    cases literal with
    | text w => exact Option.some.inj e ▸ hl
    | _ => cases e
  · exact fun h => ⟨_, h, rfl⟩

variable {type : ValueType} (scalar : type = .int ∨ type = .text) {value : Literal} (fits : value.type = type)
  (l : List Literal)

include scalar fits

theorem contains_ofLiterals : (ofLiterals type l).contains value = true ↔ value ∈ l := by
  subst fits
  cases value with
  | int v => exact (SortedMap.contains_setOf _ _).trans mem_filterMap_int?
  | text v => exact (SortedMap.contains_setOf _ _).trans mem_filterMap_text?
  | _ => simp [Literal.type] at scalar

theorem insert_ofLiterals : (ofLiterals type l).insert value = ofLiterals type (l ++ [value]) := by
  subst fits
  cases value with
  | int v => simp [ofLiterals, insert, Literal.type, int?, SortedMap.setOf_append]
  | text v => simp [ofLiterals, insert, Literal.type, text?, SortedMap.setOf_append]
  | _ => simp [Literal.type] at scalar

omit fits in
theorem size_ofLiterals {l : List Literal} (fits : ∀ value ∈ l, value.type = type) (nodup : l.Nodup) :
    (ofLiterals type l).size = l.length := by
  rcases scalar with rfl | rfl
  · have whole : (l.filterMap int?).length = l.length :=
      List.filterMap_length_eq_length.mpr fun value hv => by
        have := fits value hv
        cases value <;> simp_all [int?, Literal.type]
    have distinct : (l.filterMap int?).Nodup := nodup.filterMap fun _ _ _ => int?_inj
    exact (SortedMap.size_setOf distinct).trans whole
  · have whole : (l.filterMap text?).length = l.length :=
      List.filterMap_length_eq_length.mpr fun value hv => by
        have := fits value hv
        cases value <;> simp_all [text?, Literal.type]
    have distinct : (l.filterMap text?).Nodup := nodup.filterMap fun _ _ _ => text?_inj
    exact (SortedMap.size_setOf distinct).trans whole

end GroupValues

/-- The record of a group with these constants, each with its declaration. -/
def Group.ofConstants (name : String) : List (String × Field) → Option Group
  | [] => none
  | first :: rest => some
    { name
      type := first.2.type
      pattern := first.2.pattern
      values := .ofLiterals first.2.type ((first :: rest).filterMap (·.2.initializer))
      status := .open
      location := first.2.location
      members := (first :: rest).map fun c => (c.1, c.2.name) }

section

variable {name declaration : String} {l : List (String × Field)} {f : Field}

theorem ofConstants_eq_none_iff : Group.ofConstants name l = none ↔ l = [] := by
  cases l <;> simp [Group.ofConstants]

theorem ofConstants_spec {r : Group} (h : Group.ofConstants name l = some r) :
    (∃ c ∈ l, r.type = c.2.type ∧ r.pattern = c.2.pattern) ∧
      r.values = .ofLiterals r.type (l.filterMap (·.2.initializer)) ∧
      r.members = l.map fun c => (c.1, c.2.name) := by
  cases l with
  | nil => cases h
  | cons first rest =>
    obtain rfl := Option.some.inj h
    exact ⟨⟨first, List.mem_cons_self, rfl, rfl⟩, rfl, rfl⟩

theorem ofConstants_status {r : Group} (h : Group.ofConstants name l = some r) : r.status = .open := by
  cases l with
  | nil => cases h
  | cons first rest => rw [← Option.some.inj h]

theorem mem_literals {value : Literal} :
    value ∈ l.filterMap (·.2.initializer) ↔ some value ∈ (l.map (·.2)).map (·.initializer) := by
  simp

/-- All constants of a legal list have the type and the pattern of the record. -/
theorem Legal.alike_record {r : Group} (legal : Legal (l.map (·.2))) (h : Group.ofConstants name l = some r) :
    ∀ k ∈ l.map (·.2), k.type = r.type ∧ k.pattern = r.pattern := by
  obtain ⟨⟨c, hc, type, pattern⟩, -, -⟩ := ofConstants_spec h
  rw [type, pattern]
  exact fun k hk => legal.alike k hk c.2 (List.mem_map_of_mem hc)

/-- Agreeing with the record of a legal list is agreeing with each of its constants. -/
theorem Legal.agrees_iff (legal : Legal (l.map (·.2))) :
    (∀ r, Group.ofConstants name l = some r → f.type = r.type ∧ f.pattern = r.pattern) ↔
      ∀ k ∈ l.map (·.2), f.type = k.type ∧ f.pattern = k.pattern := by
  constructor
  · intro h k hk
    cases hr : Group.ofConstants name l with
    | none => rw [ofConstants_eq_none_iff.mp hr] at hk; cases hk
    | some r =>
      obtain ⟨type, pattern⟩ := legal.alike_record hr k hk
      rw [type, pattern]
      exact h r hr
  · intro h r hr
    obtain ⟨⟨c, hc, type, pattern⟩, -, -⟩ := ofConstants_spec hr
    rw [type, pattern]
    exact h c.2 (List.mem_map_of_mem hc)

/-- A value is taken in the record if a constant has it as its literal. -/
theorem free_iff {value : Literal} (scalar : f.type = .int ∨ f.type = .text) (fits : value.type = f.type)
    (same : ∀ r, Group.ofConstants name l = some r → f.type = r.type ∧ f.pattern = r.pattern) :
    (∀ r, Group.ofConstants name l = some r → r.values.contains value = false) ↔
      some value ∉ (l.map (·.2)).map (·.initializer) := by
  rw [← mem_literals]
  cases hr : Group.ofConstants name l with
  | none => simp [ofConstants_eq_none_iff.mp hr]
  | some r =>
    simp only [Option.some.injEq, forall_eq', ← Bool.not_eq_true]
    rw [(ofConstants_spec hr).2.1, ← (same r hr).1, GroupValues.contains_ofLiterals scalar fits]

/-- A constant is admitted to the group of a legal list if the list stays legal with it. -/
theorem Legal.admissible_iff (legal : Legal (l.map (·.2))) :
    (∃ value, admissible name (Group.ofConstants name l) f = .ok value) ↔ Legal (l.map (·.2) ++ [f]) := by
  rw [legal.append_iff]
  simp only [admissible_eq_ok_iff]
  constructor
  · intro h
    obtain ⟨value, scalar, same, first, contributes, new, powers⟩ := h
    obtain ⟨initializer, fits⟩ := (contribution?_eq_some_iff scalar).mp contributes
    have alike := legal.agrees_iff.mp same
    -- the rule about texts is checked for the first constant; later ones have its pattern
    have textual : f.type = .text → f.pattern = .unconstrained := fun text => by
      cases hl : l.map (·.2) with
      | nil => exact first (ofConstants_eq_none_iff.mpr (List.map_eq_nil_iff.mp hl)) text
      | cons k rest =>
        have hk : k ∈ l.map (·.2) := by rw [hl]; exact List.mem_cons_self
        rw [(alike k hk).2]
        exact legal.textual k hk (by rw [← (alike k hk).1, text])
    refine ⟨scalar, alike, textual, ⟨value, initializer, fits⟩, ?_, fun flags => ?_⟩
    · rw [initializer]
      exact (free_iff scalar fits same).mp new
    · have int : f.type = .int := scalar.resolve_right fun text => by rw [textual text] at flags; cases flags
      rw [int] at fits
      cases value with
      | int v => exact ⟨v, initializer, isPowerOfTwo_iff.mp (powers flags v rfl)⟩
      | _ => cases fits
  · intro h
    obtain ⟨scalar, alike, textual, ⟨value, initializer, fits⟩, new, powers⟩ := h
    have same : ∀ r, Group.ofConstants name l = some r → f.type = r.type ∧ f.pattern = r.pattern :=
      legal.agrees_iff.mpr alike
    rw [initializer] at new
    refine ⟨value, scalar, same, fun _ => textual, (contribution?_eq_some_iff scalar).mpr ⟨initializer, fits⟩,
      (free_iff scalar fits same).mpr new, fun flags v e => ?_⟩
    obtain ⟨w, hw, power⟩ := powers flags
    rw [initializer, e] at hw
    cases hw
    exact isPowerOfTwo_iff.mpr power

/-- Accepting a constant makes the record that of the longer list. -/
theorem ofConstants_append {value : Literal} (ok : admissible name (Group.ofConstants name l) f = .ok value) :
    Group.ofConstants name (l ++ [(declaration, f)]) =
      some (((Group.ofConstants name l).getD (.foundedBy name f)).accept declaration f value) := by
  obtain ⟨scalar, same, -, contributes, -, -⟩ := admissible_eq_ok_iff.mp ok
  obtain ⟨initializer, fits⟩ := (contribution?_eq_some_iff scalar).mp contributes
  cases l with
  | nil =>
    have founded : GroupValues.emptyOf f.type = .ofLiterals f.type [] := by
      rcases scalar with e | e <;> rw [e] <;> rfl
    simp [Group.ofConstants, Group.foundedBy, Group.accept, founded, GroupValues.insert_ofLiterals scalar fits,
      initializer]
  | cons first rest =>
    have type : f.type = first.2.type := (same _ rfl).1
    rw [type] at scalar fits
    have literals : (first :: (rest ++ [(declaration, f)])).filterMap (·.2.initializer) =
        (first :: rest).filterMap (·.2.initializer) ++ [value] := by
      rw [← List.cons_append, List.filterMap_append]
      simp [initializer]
    simp [Group.ofConstants, Group.accept, GroupValues.insert_ofLiterals scalar fits, literals]

end

/-! ## Runs of the validator -/

inductive Request where
  | constant (declaration : String) (f : Field)
  | declaration (d : Declaration)

structure Judged where
  declaration : String
  field : Field
  verdict : Verdict

def Request.fields : Request → List (String × Field)
  | .constant d f => [(d, f)]
  | .declaration d => d.fields.map (d.name, ·)

/-- The constants that were accepted into a group, in order, each with its declaration. -/
def acceptedInto (name : String) (history : List Judged) : List (String × Field) :=
  (history.filter fun j => j.verdict = .accepted ∧ j.field.group = some name).map fun j => (j.declaration, j.field)

theorem acceptedInto_append (name : String) (history : List Judged) (j : Judged) :
    acceptedInto name (history ++ [j]) = acceptedInto name history ++
      if j.verdict = .accepted ∧ j.field.group = some name then [(j.declaration, j.field)] else [] := by
  unfold acceptedInto
  rw [List.filter_append, List.map_append]
  congr 1
  by_cases h : j.verdict = .accepted ∧ j.field.group = some name <;> simp [h]

namespace Validator

variable (v : Validator) (declaration : String) (f : Field)

def serve : Request → List Diagnostic × Validator
  | .constant d f => ((v.validate d f).1.diagnostics, (v.validate d f).2)
  | .declaration d => v.validateDeclaration d

def judgeNext (run : List Judged × Validator) (c : String × Field) : List Judged × Validator :=
  (run.1 ++ [⟨c.1, c.2, (run.2.validate c.1 c.2).1⟩], (run.2.validate c.1 c.2).2)

def judgeAll (l : List (String × Field)) : List Judged × Validator := l.foldl judgeNext ([], start)

theorem judgeAll_append (l : List (String × Field)) (c : String × Field) :
    judgeAll (l ++ [c]) = judgeNext (judgeAll l) c := by
  simp [judgeAll]

/-- What checking a field comes to. -/
theorem validate_cases :
    (f.isGroupedConstant = false ∧ v.validate declaration f = (.ignored, v)) ∨
      ∃ name, f.group = some name ∧ f.isGroupedConstant = true ∧
        ((∃ value, admissible name (v.group? name) f = .ok value ∧
            v.validate declaration f = (.accepted,
              { groups := v.groups.insert name
                  (((v.group? name).getD (.foundedBy name f)).accept declaration f value)
                report := v.report.record declaration f.name .accepted })) ∨
          ∃ r, admissible name (v.group? name) f = .error r ∧
            v.validate declaration f =
              (.rejected { location := f.location, kind := .constant r.fault, args := r.args,
                           context := some declaration },
                { v with report := v.report.record declaration f.name (.rejected (.constant r.fault)) })) := by
  cases hg : f.group with
  | none => exact .inl ⟨by simp [Field.isGroupedConstant, hg], by simp [validate, hg]⟩
  | some name =>
    by_cases constant : f.modifiers.isConstant = true
    · refine .inr ⟨name, rfl, by simp [Field.isGroupedConstant, hg, constant], ?_⟩
      cases answer : admissible name (v.group? name) f with
      | ok value =>
        exact .inl ⟨value, rfl, by simp [validate, hg, constant, answer, judge, Verdict.outcome?]⟩
      | error r =>
        exact .inr ⟨r, rfl, by simp [validate, hg, constant, answer, judge, Verdict.outcome?]⟩
    · exact .inl ⟨by simp [Field.isGroupedConstant, constant], by simp [validate, hg, constant]⟩

variable {v declaration f}

theorem accepted_iff {name : String} (grouped : f.group = some name) (constant : f.isGroupedConstant = true) :
    (v.validate declaration f).1 = .accepted ↔ ∃ value, admissible name (v.group? name) f = .ok value := by
  rcases v.validate_cases declaration f with ⟨plain, -⟩ | ⟨name', grouped', -, ⟨value, ok, e⟩ | ⟨r, error, e⟩⟩
  · rw [constant] at plain; cases plain
  · obtain rfl := Option.some.inj (grouped.symm.trans grouped')
    simp [e, ok]
  · obtain rfl := Option.some.inj (grouped.symm.trans grouped')
    simp [e, error]

/-- Every group is the record of its accepted constants, and they are legal. -/
structure Kept (run : List Judged × Validator) : Prop where
  record : ∀ name, run.2.group? name = Group.ofConstants name (acceptedInto name run.1)
  legal : ∀ name, Legal ((acceptedInto name run.1).map (·.2))

/-- A field that is not accepted changes no group. -/
theorem Kept.passOver {run : List Judged × Validator} (h : Kept run) {w : Validator} {j : Judged}
    (same : w.groups = run.2.groups) (out : j.verdict ≠ .accepted) : Kept (run.1 ++ [j], w) := by
  have into : ∀ n, acceptedInto n (run.1 ++ [j]) = acceptedInto n run.1 := fun n => by
    simp [acceptedInto_append, out]
  refine ⟨fun n => ?_, fun n => ?_⟩
  · rw [into, group?, same]
    exact h.record n
  · rw [into]
    exact h.legal n

theorem kept_judgeNext {run : List Judged × Validator} (h : Kept run) (c : String × Field) : Kept (judgeNext run c) := by
  obtain ⟨history, v⟩ := run
  obtain ⟨declaration, f⟩ := c
  unfold judgeNext
  rcases v.validate_cases declaration f with ⟨-, e⟩ | ⟨name, grouped, -, ⟨value, ok, e⟩ | ⟨r, -, e⟩⟩
  · rw [e]
    exact h.passOver rfl (by simp)
  · rw [e]
    rw [h.record name] at ok
    have into : ∀ n, acceptedInto n (history ++ [⟨declaration, f, .accepted⟩]) =
        acceptedInto n history ++ if name = n then [(declaration, f)] else [] := fun n => by
      simp [acceptedInto_append, grouped]
    refine ⟨fun n => ?_, fun n => ?_⟩
    · show (v.groups.insert name _).find? n = _
      rw [SortedMap.find?_insert, into]
      split
      · rename_i same
        rw [← same, ofConstants_append ok, h.record name]
      · rw [List.append_nil]
        exact h.record n
    · rw [into]
      split
      · rename_i same
        rw [← same, List.map_append]
        exact (h.legal name).admissible_iff.mp ⟨value, ok⟩
      · rw [List.append_nil]
        exact h.legal n
  · rw [e]
    exact h.passOver rfl (by simp)

theorem kept_judgeAll (l : List (String × Field)) : Kept (judgeAll l) := by
  induction l using List.reverseRecOn with
  | nil => exact ⟨fun _ => rfl, fun _ => legal_nil⟩
  | append_singleton l c ih =>
    rw [judgeAll_append]
    exact kept_judgeNext ih c

/-- A request for a declaration is one for each of its fields. -/
theorem serve_eq (v : Validator) (q : Request) :
    (v.serve q).2 = q.fields.foldl (fun v c => (v.validate c.1 c.2).2) v := by
  cases q with
  | constant d f => rfl
  | declaration d =>
    show (v.validateAll d.name d.fields).2 = (d.fields.map (d.name, ·)).foldl _ v
    induction d.fields generalizing v with
    | nil => rfl
    | cons f rest ih => exact ih _

theorem serveAll_eq (requests : List Request) :
    requests.foldl (fun v q => (v.serve q).2) start = (judgeAll (requests.flatMap Request.fields)).2 := by
  have state : ∀ (l : List (String × Field)) (run : List Judged × Validator),
      (l.foldl judgeNext run).2 = l.foldl (fun v c => (v.validate c.1 c.2).2) run.2 := fun l => by
    induction l with
    | nil => exact fun _ => rfl
    | cons c l ih => exact fun run => ih (judgeNext run c)
  rw [judgeAll, state, List.foldl_flatMap]
  congr 1
  funext v q
  exact serve_eq v q

end Validator

/-! ## What a legal group's record says -/

section

variable {name : String} {l : List (String × Field)} {r : Group} (legal : Legal (l.map (·.2)))
  (h : Group.ofConstants name l = some r)

include legal h

theorem Legal.size_values : r.values.size = r.members.length := by
  obtain ⟨⟨c, hc, type, -⟩, values, members⟩ := ofConstants_spec h
  have scalar : r.type = .int ∨ r.type = .text := type ▸ legal.scalar c.2 (List.mem_map_of_mem hc)
  have fits : ∀ value ∈ l.filterMap (·.2.initializer), value.type = r.type := fun value hv => by
    obtain ⟨c, hc, initializer⟩ := List.mem_filterMap.mp hv
    obtain ⟨own, hown, fits⟩ := legal.literal c.2 (List.mem_map_of_mem hc)
    rw [← (legal.alike_record h c.2 (List.mem_map_of_mem hc)).1, ← fits]
    exact congrArg Literal.type (Option.some.inj (initializer.symm.trans hown))
  have whole : (l.filterMap (·.2.initializer)).length = l.length :=
    List.filterMap_length_eq_length.mpr fun c hc => by
      obtain ⟨value, initializer, -⟩ := legal.literal c.2 (List.mem_map_of_mem hc)
      rw [initializer]; rfl
  have nodup : (l.filterMap (·.2.initializer)).Nodup := by
    have distinct : (((l.map (·.2)).map (·.initializer)).filterMap id).Nodup :=
      legal.distinct.filterMap fun a b v ha hb => (Option.mem_def.mp ha).trans (Option.mem_def.mp hb).symm
    rwa [List.filterMap_map, List.filterMap_map] at distinct
  rw [values, GroupValues.size_ofLiterals scalar fits nodup, whole, members, List.length_map]

theorem Legal.bits_apart (flags : r.pattern = .flags) {a b : Int64} (ha : r.values.contains (.int a) = true)
    (hb : r.values.contains (.int b) = true) (other : a ≠ b) : a &&& b = 0 := by
  obtain ⟨⟨c, hc, type, pattern⟩, values, -⟩ := ofConstants_spec h
  have power : ∀ x : Int64, r.values.contains (.int x) = true → ∃ k : Nat, x.toInt = 2 ^ k := fun x hx => by
    have int : r.type = .int := by
      rw [type]
      refine (legal.scalar c.2 (List.mem_map_of_mem hc)).resolve_right fun text => ?_
      rw [pattern, legal.textual c.2 (List.mem_map_of_mem hc) text] at flags
      cases flags
    rw [values, int, GroupValues.contains_ofLiterals (.inl rfl) rfl] at hx
    obtain ⟨d, hd, initializer⟩ := List.mem_filterMap.mp hx
    have ⟨_, same⟩ := legal.alike_record h d.2 (List.mem_map_of_mem hd)
    obtain ⟨v, hv, power⟩ := legal.powers d.2 (List.mem_map_of_mem hd) (same.trans flags)
    cases initializer.symm.trans hv
    exact power
  obtain ⟨i, hi⟩ := power a ha
  obtain ⟨j, hj⟩ := power b hb
  exact and_eq_zero hi hj other

end

/-- Whatever was checked before, a constant is accepted if the accepted constants of its group stay
legal with it, and every group is the record of its accepted constants. The test for powers of two
finds them among all words, and does not overflow. -/
theorem accepts_legal_extensions (requests : List Request) :
    let v := requests.foldl (fun v q => (v.serve q).2) Validator.start
    let accepted := fun name => acceptedInto name (Validator.judgeAll (requests.flatMap Request.fields)).1
    (∀ declaration f name, f.group = some name → f.isGroupedConstant = true →
        ((v.validate declaration f).1 = .accepted ↔ Legal ((accepted name).map (·.2) ++ [f]))) ∧
      (∀ name, v.group? name = Group.ofConstants name (accepted name)) ∧
      (∀ name, v.status name = if accepted name = [] then .unseen else .open) ∧
      (∀ name g, v.group? name = some g →
        g.values.size = g.members.length ∧
          (g.pattern = .flags → ∀ a b : Int64, g.values.contains (.int a) = true →
            g.values.contains (.int b) = true → a ≠ b → a &&& b = 0)) ∧
      ∀ n : Int64,
        (isPowerOfTwo n = true ↔ ∃ k : Nat, n.toInt = 2 ^ k) ∧
          (¬n ≤ 0 → n.toBitVec.ssubOverflow 1 = false ∧ (n - 1).toInt = n.toInt - 1) := by
  intro v accepted
  have kept := Validator.kept_judgeAll (requests.flatMap Request.fields)
  have state : v = (Validator.judgeAll (requests.flatMap Request.fields)).2 := Validator.serveAll_eq requests
  have record : ∀ name, v.group? name = Group.ofConstants name (accepted name) := state ▸ kept.record
  refine ⟨fun declaration f name grouped constant => ?_, record, fun name => ?_, fun name g hg => ?_,
    fun n => ⟨isPowerOfTwo_iff, pred_exact⟩⟩
  · rw [Validator.accepted_iff grouped constant, record name]
    exact (kept.legal name).admissible_iff
  · rw [Validator.status, record name]
    cases accepted name <;> rfl
  · rw [record name] at hg
    exact ⟨(kept.legal name).size_values hg, fun flags a b ha hb => (kept.legal name).bits_apart hg flags ha hb⟩

/-- Two flags and a number between them that is none, two of the fields of one declaration. -/
def modeRequests : List Request :=
  [.declaration { name := "Modes", fields := [.constant "READ" "Mode" .flags (.int 1),
      .constant "NAME" "Label" .unconstrained (.text "mode"), .constant "WRITE" "Mode" .flags (.int 2)] },
    .constant "Extra" (.constant "BOTH" "Mode" .flags (.int 3))]

theorem accepts_legal_extensions_modes :
    let f := Field.constant "RUN" "Mode" .flags (.int 4)
    f.group = some "Mode" ∧ f.isGroupedConstant = true ∧
      Legal ((acceptedInto "Mode" (Validator.judgeAll (modeRequests.flatMap Request.fields)).1).map (·.2) ++ [f]) := by
  intro f
  refine ⟨rfl, rfl, ((accepts_legal_extensions modeRequests).1 "Extra" f "Mode" rfl rfl).mp ?_⟩
  decide +kernel

end Constants

end FlowCheck
