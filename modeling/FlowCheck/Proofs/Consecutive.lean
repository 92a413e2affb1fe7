/-
  FlowCheck.Proofs.Consecutive — counting finds the gaps, over all 64-bit integers.

  The check compares how many values there are with how many lie from the least to the greatest. These
  are as many only if none is left out (`isConsecutive_integersOf_iff`). The comparison is right in words of
  128 bits: the least and the greatest value there is are less than 2 ^ 64 apart (`span_exact`), and
  more values than that there are not (`Ends.size_le`).

  Neither side looks at the order in which values came in, so the end of a run faults a group whatever
  the order in which its constants were accepted (`faults_iff`).
-/

import FlowCheck.Proofs.Accounts

namespace FlowCheck.Constants

/-! ## The ends of a set -/

structure Ends (values : List Int64) (least greatest : Int64) : Prop where
  first : least ∈ values
  last : greatest ∈ values
  above : ∀ v ∈ values, least ≤ v
  below : ∀ v ∈ values, v ≤ greatest

def integersOf (values : List Int64) : SortedSet Int := .setOf (values.map Int64.toInt)

variable {values : List Int64} {least greatest : Int64}

theorem mem_keys_integersOf {k : Int} : k ∈ (integersOf values).keys ↔ ∃ v ∈ values, v.toInt = k := by
  rw [← SortedMap.contains_iff_mem_keys, integersOf, SortedMap.contains_setOf, List.mem_map]

theorem exists_head_getLast {α : Type} {l : List α} (some_ : l ≠ []) :
    ∃ a b, l.head? = some a ∧ l.getLast? = some b :=
  ⟨_, _, List.head?_eq_some_head some_, List.getLast?_eq_some_getLast some_⟩

/-- A set is listed from its least value to its greatest. -/
theorem Ends.keys (ends : Ends values least greatest) :
    (integersOf values).keys.head? = some least.toInt ∧ (integersOf values).keys.getLast? = some greatest.toInt := by
  have hleast := mem_keys_integersOf.mpr ⟨least, ends.first, rfl⟩
  have hgreatest := mem_keys_integersOf.mpr ⟨greatest, ends.last, rfl⟩
  obtain ⟨a, b, first, last⟩ := exists_head_getLast (List.ne_nil_of_mem hleast)
  have ascending := (integersOf values).ascending_keys
  have low := (bounds_of_ascending ascending first last hleast).1
  have high := (bounds_of_ascending ascending first last hgreatest).2
  obtain ⟨v, hv, rfl⟩ := mem_keys_integersOf.mp (List.mem_of_mem_head? first)
  obtain ⟨w, hw, rfl⟩ := mem_keys_integersOf.mp (List.mem_of_getLast? last)
  have := Int64.le_iff_toInt_le.mp (ends.above v hv)
  have := Int64.le_iff_toInt_le.mp (ends.below w hw)
  rw [first, last, Option.some.injEq, Option.some.injEq]
  exact ⟨by omega, by omega⟩

theorem exists_ends (some_ : values ≠ []) : ∃ least greatest, Ends values least greatest := by
  obtain ⟨u, hu⟩ := List.exists_mem_of_ne_nil values some_
  have hu := mem_keys_integersOf.mpr ⟨u, hu, rfl⟩
  obtain ⟨a, b, first, last⟩ := exists_head_getLast (List.ne_nil_of_mem hu)
  have bounds := fun v (hv : v ∈ values) => bounds_of_ascending (integersOf values).ascending_keys first last
    (mem_keys_integersOf.mpr ⟨v, hv, rfl⟩)
  obtain ⟨least, hleast, rfl⟩ := mem_keys_integersOf.mp (List.mem_of_mem_head? first)
  obtain ⟨greatest, hgreatest, rfl⟩ := mem_keys_integersOf.mp (List.mem_of_getLast? last)
  exact ⟨least, greatest, hleast, hgreatest, fun v hv => Int64.le_iff_toInt_le.mpr (bounds v hv).1,
    fun v hv => Int64.le_iff_toInt_le.mpr (bounds v hv).2⟩

/-! ## Counting -/

/-- The check counts the values from the least to the greatest. -/
theorem Ends.isConsecutive_eq (ends : Ends values least greatest) :
    (GroupValues.integers (integersOf values)).isConsecutive =
      decide (greatest.toInt - least.toInt + 1 = (integersOf values).size) := by
  rw [GroupValues.isConsecutive, ends.keys.1, ends.keys.2]

/-- A set is consecutive if every integer from its least value to its greatest is in it. -/
theorem isConsecutive_integersOf_iff (values : List Int64) :
    (GroupValues.integers (integersOf values)).isConsecutive = true ↔
      ∀ least greatest, Ends values least greatest →
        ∀ k, least.toInt ≤ k → k ≤ greatest.toInt → ∃ v ∈ values, v.toInt = k := by
  by_cases empty : values = []
  · subst empty
    exact iff_of_true rfl fun _ _ ends => nomatch ends.first
  · obtain ⟨least, greatest, ends⟩ := exists_ends empty
    rw [ends.isConsecutive_eq, decide_eq_true_iff, ← SortedMap.length_keys,
      consecutive_iff (SortedMap.ascending_keys _) ends.keys.1 ends.keys.2]
    simp only [mem_keys_integersOf]
    refine ⟨fun all low high ends' k above below => ?_, fun all => all least greatest ends⟩
    have := Int64.le_iff_toInt_le.mp (ends.above low ends'.first)
    have := Int64.le_iff_toInt_le.mp (ends.below high ends'.last)
    exact all k (by omega) (by omega)

/-- There are no more values than from the least to the greatest. -/
theorem Ends.size_le (ends : Ends values least greatest) :
    ((integersOf values).size : Int) ≤ greatest.toInt - least.toInt + 1 := by
  rw [← SortedMap.length_keys]
  exact length_le_range (SortedMap.ascending_keys _) ends.keys.1 ends.keys.2

/-! ## Counting in words of 128 bits -/

def wide (v : Int64) : BitVec 128 := v.toBitVec.signExtend 128

theorem toInt_wide (v : Int64) : (wide v).toInt = v.toInt := by
  rw [wide, BitVec.toInt_signExtend_of_le (by decide), Int64.toInt_toBitVec]

/-- Nothing overflows on the way from the least to the greatest value. -/
theorem span_exact (least greatest : Int64) :
    (wide greatest).ssubOverflow (wide least) = false ∧ (wide greatest - wide least).saddOverflow 1 = false ∧
      (wide greatest - wide least + 1).toInt = greatest.toInt - least.toInt + 1 := by
  have := least.le_toInt
  have := least.toInt_lt
  have := greatest.le_toInt
  have := greatest.toInt_lt
  have one : (1 : BitVec 128).toInt = 1 := by decide
  have sub : (wide greatest).ssubOverflow (wide least) = false := by
    simp only [BitVec.ssubOverflow, toInt_wide, Bool.or_eq_false_iff, decide_eq_false_iff_not]
    constructor <;> omega
  have difference : (wide greatest - wide least).toInt = greatest.toInt - least.toInt := by
    rw [BitVec.toInt_sub_of_not_ssubOverflow (Bool.eq_false_iff.mp sub), toInt_wide, toInt_wide]
  have add : (wide greatest - wide least).saddOverflow 1 = false := by
    simp only [BitVec.saddOverflow, difference, one, Bool.or_eq_false_iff, decide_eq_false_iff_not]
    constructor <;> omega
  refine ⟨sub, add, ?_⟩
  rw [BitVec.toInt_add_of_not_saddOverflow (Bool.eq_false_iff.mp add), difference, one]

/-- The comparison in words is the one in integers. -/
theorem Ends.span_eq_iff (ends : Ends values least greatest) :
    wide greatest - wide least + 1 = BitVec.ofNat 128 (integersOf values).size ↔
      (GroupValues.integers (integersOf values)).isConsecutive = true := by
  have := least.le_toInt
  have := greatest.toInt_lt
  have := ends.size_le
  have size : (BitVec.ofNat 128 (integersOf values).size).toInt = (integersOf values).size := by
    rw [BitVec.toInt_eq_toNat_of_lt] <;> rw [BitVec.toNat_ofNat, Nat.mod_eq_of_lt] <;> omega
  rw [← BitVec.toInt_inj, (span_exact least greatest).2.2, size, ends.isConsecutive_eq, decide_eq_true_iff]

/-! ## The end of a run -/

def Validator.Faults (v : Validator) (name : String) : Prop := ∃ d ∈ v.finish.1, d.args = [name]

theorem faults_iff (name : String) (calls : List (String × Field)) :
    (Validator.judgeAll calls).2.Faults name ↔ Gapped ((acceptedInto name (Validator.judgeAll calls).1).map (·.2)) := by
  obtain ⟨firsts, -, mem, faults⟩ := Validator.exists_gapFaults calls
  unfold Validator.Faults
  rw [faults]
  constructor
  · rintro ⟨d, hd, named⟩
    obtain ⟨⟨n, c⟩, first, rfl⟩ := List.mem_map.mp hd
    obtain rfl : n = name := by simpa [gapFault] using named
    exact ((mem n c).mp first).1
  · intro gapped
    obtain ⟨f, hf, -⟩ := gapped.1
    have accepted : acceptedInto name (Validator.judgeAll calls).1 ≠ [] := fun none_ => by
      rw [none_] at hf
      cases hf
    obtain ⟨c, -, first, -⟩ := exists_head_getLast accepted
    exact ⟨gapFault name c, List.mem_map.mpr ⟨(name, c), (mem name c).mpr ⟨gapped, first⟩, rfl⟩, rfl⟩

theorem Gapped.perm {l l' : List Field} (perm : l'.Perm l) : Gapped l' ↔ Gapped l := by
  unfold Gapped
  simp only [perm.mem_iff, (perm.map _).mem_iff]

/-- A group of consecutive values has no gap, over all 64-bit integers:
- the check finds that exactly if every integer from the least to the greatest value is a value;
- its arithmetic, in words of 128 bits, does not overflow, and answers as in integers;
- so the end of a run faults the same groups in whatever order their constants were accepted. -/
theorem consecutive_means_no_gap :
    (∀ values : List Int64, (GroupValues.integers (integersOf values)).isConsecutive = true ↔
      ∀ least greatest, Ends values least greatest →
        ∀ k, least.toInt ≤ k → k ≤ greatest.toInt → ∃ v ∈ values, v.toInt = k) ∧
    (∀ (values : List Int64) (least greatest : Int64), Ends values least greatest →
      (wide greatest).ssubOverflow (wide least) = false ∧ (wide greatest - wide least).saddOverflow 1 = false ∧
        (wide greatest - wide least + 1 = BitVec.ofNat 128 (integersOf values).size ↔
          (GroupValues.integers (integersOf values)).isConsecutive = true)) ∧
    ∀ (name : String) (calls calls' : List (String × Field)),
      (acceptedInto name (Validator.judgeAll calls').1).Perm (acceptedInto name (Validator.judgeAll calls).1) →
        ((Validator.judgeAll calls').2.Faults name ↔ (Validator.judgeAll calls).2.Faults name) := by
  refine ⟨isConsecutive_integersOf_iff, fun values least greatest ends => ?_, fun name calls calls' perm => ?_⟩
  · obtain ⟨sub, add, -⟩ := span_exact least greatest
    exact ⟨sub, add, ends.span_eq_iff⟩
  · rw [faults_iff, faults_iff, Gapped.perm (perm.map _)]

def levels (order : List (String × Int64)) : List (String × Field) :=
  order.map fun e => ("D", .constant e.1 "G" .consecutive (.int e.2))

/-- The two values that are furthest apart leave a gap. Levels in a row pass, in whatever order. -/
theorem consecutive_means_no_gap_levels :
    ((GroupValues.integers (integersOf [Int64.maxValue, Int64.minValue])).isConsecutive = false ∧
      (wide Int64.maxValue).ssubOverflow (wide Int64.minValue) = false) ∧
    ¬(Validator.judgeAll (levels [("A", 3), ("B", 1), ("C", 2)])).2.Faults "G" ∧
    ¬(Validator.judgeAll (levels [("B", 1), ("C", 2), ("A", 3)])).2.Faults "G" := by
  obtain ⟨gaps, words, orders⟩ := consecutive_means_no_gap
  have ends : Ends [Int64.maxValue, Int64.minValue] Int64.minValue Int64.maxValue :=
    ⟨by decide, by decide, fun v _ => v.minValue_le, fun v _ => v.le_maxValue⟩
  have gap : (GroupValues.integers (integersOf [Int64.maxValue, Int64.minValue])).isConsecutive = false := by
    by_contra passes
    obtain ⟨v, hv, zero⟩ := (gaps _).mp (by simpa using passes) _ _ ends 0 (by decide) (by decide)
    rcases List.mem_pair.mp hv with rfl | rfl <;> revert zero <;> decide
  have reordered := orders "G" (levels [("B", 1), ("C", 2), ("A", 3)]) (levels [("A", 3), ("B", 1), ("C", 2)])
    (by decide)
  have quiet : (Validator.judgeAll (levels [("B", 1), ("C", 2), ("A", 3)])).2.finish.1 = [] := by decide
  have passes : ¬(Validator.judgeAll (levels [("B", 1), ("C", 2), ("A", 3)])).2.Faults "G" := by
    rintro ⟨d, hd, -⟩
    rw [quiet] at hd
    cases hd
  exact ⟨⟨gap, (words _ _ _ ends).1⟩, mt reordered.mp passes, passes⟩

end FlowCheck.Constants
