/-
  FlowCheck.Proofs.Accounts — every constant is accounted for once, in diagnostics and report.

  A field that is refused is reported when it is checked; a group of consecutive values with a gap
  is reported at the end, at its first constant. The report has the last outcome of every constant
  that was checked (`find?_judgeAll`), under which the end of the run writes the fault of the group
  for all members of a group with a gap (`find?_finish`).

  That a group has a gap is said of its accepted constants (`Gapped`): an integer they leave out
  lies between two that they have. The check counts instead (`consecutive_iff`).
-/

import FlowCheck.Proofs.Groups
import Mathlib.Order.Interval.Finset.Defs
import Mathlib.Data.Int.Interval

namespace FlowCheck

/-! ## Keys and entries -/

theorem SortedMap.contains_iff_mem_keys {κ ν : Type} [Ord κ] [Std.LawfulEqOrd κ] {m : SortedMap κ ν} {k : κ} :
    m.contains k = true ↔ k ∈ m.keys := by
  rw [contains, Option.isSome_iff_exists]
  simp only [find?_eq_some_iff, keys, List.mem_map, Prod.exists, exists_and_right, exists_eq_right]

theorem SortedMap.length_keys {κ ν : Type} [Ord κ] (m : SortedMap κ ν) : m.keys.length = m.size := by
  rw [keys, List.length_map]
  rfl

theorem SortedMap.ascending_keys (s : SortedSet Int) : s.keys.Pairwise (· < ·) := by
  rw [keys, List.pairwise_map]
  exact s.ascending.imp fun h => Int.compare_eq_lt.mp h

/-- A member recorded with the others of a list has their result. -/
theorem Report.find?_foldl_record {α : Type} (a : α) (l : List (String × String)) (r : Report α) (d c : String) :
    (l.foldl (fun r m => r.record m.1 m.2 a) r).find? d c = if (d, c) ∈ l then some a else r.find? d c := by
  induction l generalizing r with
  | nil => simp
  | cons m l ih =>
    rw [List.foldl_cons, ih, Report.find?_record]
    by_cases here : m = (d, c)
    · simp [here]
    · have other : ¬(m.1 = d ∧ m.2 = c) := fun h => here (Prod.ext h.1 h.2)
      simp [other, Ne.symm here]

namespace Constants

/-! ## Gaps -/

section

variable {l : List Int} (ascending : l.Pairwise (· < ·)) {least greatest : Int} (first : l.head? = some least)
  (last : l.getLast? = some greatest)

include ascending first last

theorem bounds_of_ascending {k : Int} (hk : k ∈ l) : least ≤ k ∧ k ≤ greatest := by
  constructor
  · obtain ⟨rest, rfl⟩ := List.head?_eq_some_iff.mp first
    rcases List.mem_cons.mp hk with rfl | hk
    · exact le_rfl
    · exact (List.rel_of_pairwise_cons ascending hk).le
  · obtain ⟨init, rfl⟩ := List.getLast?_eq_some_iff.mp last
    rcases List.mem_append.mp hk with hk | hk
    · exact ((List.pairwise_append.mp ascending).2.2 k hk greatest (List.mem_singleton.mpr rfl)).le
    · exact (List.mem_singleton.mp hk).le

/-- Ascending integers are, each of them once, in the range from the first to the last. -/
theorem exists_range :
    ∃ range : Finset Int, (∀ k, k ∈ range ↔ least ≤ k ∧ k ≤ greatest) ∧ l.toFinset ⊆ range ∧
      l.toFinset.card = l.length ∧ (range.card : Int) = greatest - least + 1 := by
  have ordered := (bounds_of_ascending ascending first last (List.mem_of_getLast? last)).1
  refine ⟨Finset.Icc least greatest, fun k => Finset.mem_Icc, fun k hk => ?_,
    List.toFinset_card_of_nodup (ascending.imp ne_of_lt), ?_⟩
  · exact Finset.mem_Icc.mpr (bounds_of_ascending ascending first last (List.mem_toFinset.mp hk))
  · rw [Int.card_Icc]
    omega

theorem length_le_range : (l.length : Int) ≤ greatest - least + 1 := by
  obtain ⟨range, -, inside, count, width⟩ := exists_range ascending first last
  have := Finset.card_le_card inside
  omega

/-- Ascending integers are as many as from the first to the last if they leave none out. -/
theorem consecutive_iff : greatest - least + 1 = l.length ↔ ∀ k, least ≤ k → k ≤ greatest → k ∈ l := by
  obtain ⟨range, mem_range, inside, count, width⟩ := exists_range ascending first last
  constructor
  · intro h k above below
    have whole := Finset.eq_of_subset_of_card_le inside (by omega)
    exact List.mem_toFinset.mp (whole ▸ (mem_range k).mpr ⟨above, below⟩)
  · intro h
    have whole : l.toFinset = range := inside.antisymm fun k hk =>
      List.mem_toFinset.mpr (h k ((mem_range k).mp hk).1 ((mem_range k).mp hk).2)
    rw [whole] at count
    omega

end

/-- A set of integers is consecutive if whatever lies between two of them is one of them. -/
theorem isConsecutive_iff (s : SortedSet Int) :
    (GroupValues.integers s).isConsecutive = true ↔
      ∀ low between high : Int, s.contains low = true → s.contains high = true → low < between → between < high →
        s.contains between = true := by
  have ascending := s.ascending_keys
  simp only [SortedMap.contains_iff_mem_keys, GroupValues.isConsecutive, ← SortedMap.length_keys]
  cases first : s.keys.head? with
  | none => simp [List.head?_eq_none_iff.mp first]
  | some least =>
    cases last : s.keys.getLast? with
    | none => rw [List.getLast?_eq_none_iff.mp last] at first; cases first
    | some greatest =>
      rw [decide_eq_true_iff, consecutive_iff ascending first last]
      constructor
      · intro h low between high hlow hhigh above below
        have := (bounds_of_ascending ascending first last hlow).1
        have := (bounds_of_ascending ascending first last hhigh).2
        exact h between (by omega) (by omega)
      · intro h k above below
        have hleast := List.mem_of_mem_head? first
        have hgreatest := List.mem_of_getLast? last
        rcases above.eq_or_lt with rfl | above
        · exact hleast
        · rcases below.eq_or_lt with rfl | below
          · exact hgreatest
          · exact h least k greatest hleast hgreatest above below

/-- The constants are to be consecutive, and leave out an integer between two of theirs. -/
def Gapped (l : List Field) : Prop :=
  (∃ f ∈ l, f.pattern = .consecutive) ∧
    ∃ low between high : Int64, low < between ∧ between < high ∧
      some (.int low) ∈ l.map (·.initializer) ∧ some (.int high) ∈ l.map (·.initializer) ∧
        some (.int between) ∉ l.map (·.initializer)

section

variable {name : String} {l : List (String × Field)} {r : Group}

theorem mem_integers {k : Int} :
    k ∈ (l.filterMap (·.2.initializer)).filterMap GroupValues.int? ↔
      ∃ v : Int64, v.toInt = k ∧ some (.int v) ∈ (l.map (·.2)).map (·.initializer) := by
  constructor
  · intro h
    obtain ⟨literal, hl, e⟩ := List.mem_filterMap.mp h
    cases literal with
    | int v => exact ⟨v, Option.some.inj e, mem_literals.mp hl⟩
    | _ => cases e
  · intro h
    obtain ⟨v, rfl, hv⟩ := h
    exact GroupValues.mem_filterMap_int?.mpr (mem_literals.mpr hv)

/-- Between two integers of a set one is left out, if the set is not consecutive. -/
theorem leftOut_iff {P : Int64 → Prop} :
    (∃ low between high : Int64, low < between ∧ between < high ∧ P low ∧ P high ∧ ¬P between) ↔
      ¬∀ low between high : Int, (∃ v : Int64, v.toInt = low ∧ P v) → (∃ v : Int64, v.toInt = high ∧ P v) →
        low < between → between < high → ∃ v : Int64, v.toInt = between ∧ P v := by
  constructor
  · intro h all
    obtain ⟨low, between, high, above, below, hlow, hhigh, out⟩ := h
    obtain ⟨v, e, hv⟩ := all _ _ _ ⟨low, rfl, hlow⟩ ⟨high, rfl, hhigh⟩ (Int64.lt_iff_toInt_lt.mp above)
      (Int64.lt_iff_toInt_lt.mp below)
    exact out (Int64.toInt_inj.mp e ▸ hv)
  · intro h
    simp only [not_forall] at h
    obtain ⟨low, between, high, ⟨v, rfl, hv⟩, ⟨w, rfl, hw⟩, above, below, out⟩ := h
    have value : (Int64.ofInt between).toInt = between :=
      Int64.toInt_ofInt_of_le (by have := v.le_toInt; omega) (by have := w.toInt_lt; omega)
    refine ⟨v, .ofInt between, w, ?_, ?_, hv, hw, fun hb => out ⟨_, value, hb⟩⟩
    · rwa [Int64.lt_iff_toInt_lt, value]
    · rwa [Int64.lt_iff_toInt_lt, value]

theorem hasGap_iff (legal : Legal (l.map (·.2))) (h : Group.ofConstants name l = some r) :
    r.hasGap = true ↔ Gapped (l.map (·.2)) := by
  obtain ⟨⟨c, hc, type, pattern⟩, values, -⟩ := ofConstants_spec h
  have hc := List.mem_map_of_mem (f := (·.2)) hc
  have consecutive : r.pattern = .consecutive ↔ ∃ f ∈ l.map (·.2), f.pattern = .consecutive := by
    constructor
    · exact fun e => ⟨c.2, hc, pattern ▸ e⟩
    · intro h'
      obtain ⟨f, hf, e⟩ := h'
      exact (legal.alike_record h f hf).2 ▸ e
  unfold Group.hasGap Gapped
  rw [Bool.and_eq_true, beq_iff_eq, consecutive, Bool.not_eq_true', ← Bool.not_eq_true]
  refine and_congr_right fun numeric => ?_
  have int : r.type = .int := by
    rw [type]
    refine (legal.scalar c.2 hc).resolve_right fun text => ?_
    rw [← consecutive, pattern, legal.textual c.2 hc text] at numeric
    cases numeric
  have integers : r.values = .integers (.setOf ((l.filterMap (·.2.initializer)).filterMap GroupValues.int?)) := by
    rw [values, int]; rfl
  rw [integers, isConsecutive_iff, leftOut_iff]
  simp only [SortedMap.contains_setOf, mem_integers]

end

/-! ## The history of a run -/

def Judged.refusal? (j : Judged) : Option Diagnostic :=
  match j.verdict with
  | .rejected d => some { location := j.field.location, kind := d.kind, args := d.args, context := some j.declaration }
  | _ => none

def gapFault (name : String) (first : String × Field) : Diagnostic :=
  { location := first.2.location, kind := .constant .nonconsecutive, args := [name], context := some first.1 }

def lastOutcome (history : List Judged) (declaration constant : String) : Option Outcome :=
  history.reverse.findSome? fun j =>
    if j.declaration = declaration ∧ j.field.name = constant then j.verdict.outcome? else none

/-- The constant was accepted into a group with a gap. -/
def InGap (history : List Judged) (declaration constant : String) : Prop :=
  ∃ name, Gapped ((acceptedInto name history).map (·.2)) ∧
    (declaration, constant) ∈ (acceptedInto name history).map fun c => (c.1, c.2.name)

theorem lastOutcome_append (history : List Judged) (j : Judged) (d c : String) :
    lastOutcome (history ++ [j]) d c =
      (if j.declaration = d ∧ j.field.name = c then j.verdict.outcome? else none).or (lastOutcome history d c) := by
  unfold lastOutcome
  rw [List.reverse_append, List.reverse_singleton, List.singleton_append, List.findSome?_cons]
  split <;> simp [*]

theorem mem_acceptedInto {name : String} {history : List Judged} {c : String × Field} :
    c ∈ acceptedInto name history ↔
      ∃ j ∈ history, j.verdict = .accepted ∧ j.field.group = some name ∧ (j.declaration, j.field) = c := by
  simp [acceptedInto, and_assoc]

namespace Validator

variable (calls : List (String × Field))

/-- The history has every field that was checked, in order. -/
theorem judgeAll_fields : (judgeAll calls).1.map (fun j => (j.declaration, j.field)) = calls := by
  induction calls using List.reverseRecOn with
  | nil => rfl
  | append_singleton l c ih => rw [judgeAll_append, judgeNext, List.map_append, ih]; rfl

/-- Every verdict in the history was given by the validator, as it was then. -/
theorem exists_of_mem_judgeAll : ∀ j ∈ (judgeAll calls).1, ∃ v : Validator, j.verdict = (v.validate j.declaration j.field).1 := by
  induction calls using List.reverseRecOn with
  | nil => exact fun j hj => nomatch hj
  | append_singleton l c ih =>
    rw [judgeAll_append, judgeNext]
    exact List.forall_mem_append.mpr ⟨ih, List.forall_mem_singleton.mpr ⟨(judgeAll l).2, rfl⟩⟩

section

variable {calls} {j : Judged} (hj : j ∈ (judgeAll calls).1)

include hj

theorem diagnostics_eq : j.verdict.diagnostics = j.refusal?.toList := by
  obtain ⟨v, e⟩ := exists_of_mem_judgeAll calls j hj
  unfold Judged.refusal?
  rcases v.validate_cases j.declaration j.field with ⟨-, h⟩ | ⟨_, -, -, ⟨_, -, h⟩ | ⟨_, -, h⟩⟩ <;> rw [e, h] <;> rfl

/-- A constant of a group gets an outcome, and no other field. -/
theorem isSome_outcome?_iff : j.verdict.outcome?.isSome = true ↔ j.field.isGroupedConstant = true := by
  obtain ⟨v, e⟩ := exists_of_mem_judgeAll calls j hj
  rcases v.validate_cases j.declaration j.field with ⟨plain, h⟩ | ⟨_, -, grouped, ⟨_, -, h⟩ | ⟨_, -, h⟩⟩
  · simp [e, h, plain, Verdict.outcome?]
  · simp [e, h, grouped, Verdict.outcome?]
  · simp [e, h, grouped, Verdict.outcome?]

end

variable {calls} in
theorem mem_calls_iff {c : String × Field} : c ∈ calls ↔ ∃ j ∈ (judgeAll calls).1, (j.declaration, j.field) = c := by
  rw [← List.mem_map, judgeAll_fields]

theorem isSome_lastOutcome_iff (d c : String) :
    (lastOutcome (judgeAll calls).1 d c).isSome = true ↔
      ∃ f, (d, f) ∈ calls ∧ f.isGroupedConstant = true ∧ f.name = c := by
  rw [lastOutcome, List.isSome_findSome?, List.any_reverse, List.any_eq_true]
  constructor
  · intro h
    obtain ⟨j, hj, some⟩ := h
    split at some
    · rename_i here
      obtain ⟨rfl, rfl⟩ := here
      exact ⟨j.field, mem_calls_iff.mpr ⟨j, hj, rfl⟩, (isSome_outcome?_iff hj).mp some, rfl⟩
    · cases some
  · intro h
    obtain ⟨f, hf, grouped, rfl⟩ := h
    obtain ⟨j, hj, e⟩ := mem_calls_iff.mp hf
    cases e
    refine ⟨j, hj, ?_⟩
    rw [if_pos ⟨rfl, rfl⟩]
    exact (isSome_outcome?_iff hj).mpr grouped

variable {calls} in
theorem checked_of_inGap {d c : String} (h : InGap (judgeAll calls).1 d c) :
    ∃ f, (d, f) ∈ calls ∧ f.isGroupedConstant = true ∧ f.name = c := by
  obtain ⟨name, -, member⟩ := h
  obtain ⟨m, hm, e⟩ := List.mem_map.mp member
  obtain ⟨j, hj, accepted, -, rfl⟩ := mem_acceptedInto.mp hm
  obtain ⟨rfl, rfl⟩ := Prod.mk.inj e
  exact ⟨j.field, mem_calls_iff.mpr ⟨j, hj, rfl⟩, (isSome_outcome?_iff hj).mp (by rw [accepted]; rfl), rfl⟩

/-- The report has the last outcome of every constant. -/
theorem find?_judgeAll (d c : String) :
    (judgeAll calls).2.report.find? d c = lastOutcome (judgeAll calls).1 d c := by
  induction calls using List.reverseRecOn with
  | nil => rfl
  | append_singleton l call ih =>
    obtain ⟨declaration, f⟩ := call
    rw [judgeAll_append, judgeNext, lastOutcome_append]
    rcases (judgeAll l).2.validate_cases declaration f with ⟨-, e⟩ | ⟨_, -, -, ⟨_, -, e⟩ | ⟨_, -, e⟩⟩
    · simp [e, Verdict.outcome?, ih]
    · simp only [e, Verdict.outcome?, Report.find?_record, ih]
      split <;> rfl
    · simp only [e, Verdict.outcome?, Report.find?_record, ih]
      split <;> rfl

/-! ## The end of a run -/

/-- A group's entry is the record of its accepted constants. -/
theorem mem_groups_iff {name : String} {r : Group} :
    (name, r) ∈ (judgeAll calls).2.groups.entries ↔
      Group.ofConstants name (acceptedInto name (judgeAll calls).1) = some r := by
  rw [← (kept_judgeAll calls).record]
  exact SortedMap.find?_eq_some_iff.symm

variable {calls}

theorem exists_group {name : String} (accepted : acceptedInto name (judgeAll calls).1 ≠ []) :
    ∃ r, (name, r) ∈ (judgeAll calls).2.groups.entries := by
  obtain ⟨r, record⟩ := Option.ne_none_iff_exists'.mp (mt ofConstants_eq_none_iff.mp accepted)
  exact ⟨r, (mem_groups_iff calls).mpr record⟩

theorem hasGap_group {name : String} {r : Group} (h : (name, r) ∈ (judgeAll calls).2.groups.entries) :
    r.hasGap = true ↔ Gapped ((acceptedInto name (judgeAll calls).1).map (·.2)) :=
  hasGap_iff ((kept_judgeAll calls).legal name) ((mem_groups_iff calls).mp h)

variable (calls)

/-- Up to its end a run closes no group. -/
theorem gaps_judgeAll : (judgeAll calls).2.gaps = (judgeAll calls).2.groups.values.filter (·.hasGap) := by
  refine List.filter_congr fun g hg => ?_
  obtain ⟨⟨name, _⟩, he, rfl⟩ := List.mem_map.mp hg
  rw [ofConstants_status ((mem_groups_iff calls).mp he)]
  rfl

/-- The end of the run closes all of them: at a second end nothing is left to fault. -/
theorem finish_closed (v : Validator) : v.closed.finish = ([], v.closed.report) := by
  have gaps : v.closed.gaps = [] := List.filter_eq_nil_iff.mpr fun g hg => by
    obtain ⟨e, he, rfl⟩ := List.mem_map.mp hg
    obtain ⟨d, -, closed⟩ := List.mem_filterMap.mp he
    obtain rfl := Option.some.inj closed
    exact Bool.false_ne_true
  have report : v.closed.closed.report = v.closed.report := congrArg (·.foldl faultMembers v.closed.report) gaps
  rw [finish, gaps, report, List.map_nil]

/-- The groups that the end of the run faults, by name, each with its first constant. -/
theorem exists_gapFaults :
    ∃ firsts : List (String × String × Field),
      firsts.Pairwise (fun a b => a.1 < b.1) ∧
        (∀ name c, (name, c) ∈ firsts ↔
          Gapped ((acceptedInto name (judgeAll calls).1).map (·.2)) ∧
            (acceptedInto name (judgeAll calls).1).head? = some c) ∧
        (judgeAll calls).2.finish.1 = firsts.map fun e => gapFault e.1 e.2 := by
  let groups := (judgeAll calls).2.groups
  let accepted := fun name => acceptedInto name (judgeAll calls).1
  have first : ∀ e ∈ groups.entries, ∃ c, (accepted e.1).head? = some c ∧ e.2.gapDiagnostic = gapFault e.1 c :=
    fun e he => by
      have record := (mem_groups_iff calls).mp he
      show ∃ c, (acceptedInto e.1 (judgeAll calls).1).head? = some c ∧ _
      cases hl : acceptedInto e.1 (judgeAll calls).1 with
      | nil => rw [hl] at record; cases record
      | cons c rest =>
        rw [hl] at record
        refine ⟨c, rfl, ?_⟩
        rw [← Option.some.inj record]
        rfl
  refine ⟨(groups.entries.filter (·.2.hasGap)).filterMap fun e => (accepted e.1).head?.map (e.1, ·), ?_, ?_, ?_⟩
  · refine List.Pairwise.filterMap _ ?_ (groups.ascending.filter _)
    intro a b ab c hc d hd
    obtain ⟨_, -, rfl⟩ := Option.map_eq_some_iff.mp hc
    obtain ⟨_, -, rfl⟩ := Option.map_eq_some_iff.mp hd
    exact compareOfLessAndEq_eq_lt.mp ab
  · intro name c
    simp only [List.mem_filterMap, List.mem_filter, Option.map_eq_some_iff, Prod.mk.injEq]
    constructor
    · intro h
      obtain ⟨⟨n, r⟩, ⟨he, gap⟩, c', hc, rfl, rfl⟩ := h
      exact ⟨(hasGap_group he).mp gap, hc⟩
    · intro h
      obtain ⟨gap, hc⟩ := h
      obtain ⟨r, he⟩ := exists_group (List.ne_nil_of_mem (List.mem_of_mem_head? hc))
      exact ⟨(name, r), ⟨he, (hasGap_group he).mpr gap⟩, c, hc, rfl, rfl⟩
  · rw [finish, gaps_judgeAll]
    show ((groups.entries.map (·.2)).filter (·.hasGap)).map (·.gapDiagnostic) = _
    rw [List.filter_map, List.map_map, List.map_filterMap, ← List.filterMap_eq_map]
    refine List.filterMap_congr fun e he => ?_
    obtain ⟨c, hc, diagnostic⟩ := first e (List.mem_of_mem_filter he)
    rw [hc, Option.map_some, Option.map_some, ← diagnostic]
    rfl

variable {calls} in
theorem mem_faulted_iff {d c : String} :
    (d, c) ∈ (judgeAll calls).2.gaps.flatMap (·.members) ↔ InGap (judgeAll calls).1 d c := by
  rw [gaps_judgeAll, List.mem_flatMap]
  constructor
  · intro h
    obtain ⟨r, hr, member⟩ := h
    obtain ⟨hr, gap⟩ := List.mem_filter.mp hr
    obtain ⟨⟨name, _⟩, he, rfl⟩ := List.mem_map.mp hr
    exact ⟨name, (hasGap_group he).mp gap, (ofConstants_spec ((mem_groups_iff calls).mp he)).2.2 ▸ member⟩
  · intro h
    obtain ⟨name, gap, member⟩ := h
    obtain ⟨r, he⟩ := exists_group fun none => List.ne_nil_of_mem member (by rw [none]; rfl)
    refine ⟨r, List.mem_filter.mpr ⟨List.mem_map_of_mem (f := (·.2)) he, (hasGap_group he).mpr gap⟩, ?_⟩
    rw [(ofConstants_spec ((mem_groups_iff calls).mp he)).2.2]
    exact member

open Classical in
/-- The end of the run writes the fault of the group for all members of a group with a gap. -/
theorem find?_finish (d c : String) :
    (judgeAll calls).2.finish.2.find? d c =
      if InGap (judgeAll calls).1 d c then some (.rejected (.constant .nonconsecutive))
      else lastOutcome (judgeAll calls).1 d c := by
  have written : (judgeAll calls).2.finish.2.find? d c =
      if (d, c) ∈ (judgeAll calls).2.gaps.flatMap (·.members) then some (.rejected (.constant .nonconsecutive))
      else lastOutcome (judgeAll calls).1 d c := by
    rw [← find?_judgeAll, ← Report.find?_foldl_record, List.foldl_flatMap]
    rfl
  rw [written]
  exact if_congr mem_faulted_iff rfl rfl

end Validator

open Classical in
/-- Every refused constant is reported once, in order, then every group with a gap; and the report
has every grouped constant that was checked, with its last outcome or the gap it is part of. The order of
strings, by code points, is that of their bytes. -/
theorem every_constant_accounted (calls : List (String × Field)) :
    let run := Validator.judgeAll calls
    run.1.map (fun j => (j.declaration, j.field)) = calls ∧
      (∃ firsts : List (String × String × Field),
        firsts.Pairwise (fun a b => a.1 < b.1) ∧
          (∀ name c, (name, c) ∈ firsts ↔
            Gapped ((acceptedInto name run.1).map (·.2)) ∧ (acceptedInto name run.1).head? = some c) ∧
          run.1.flatMap (·.verdict.diagnostics) ++ run.2.finish.1 =
            run.1.filterMap Judged.refusal? ++ firsts.map fun e => gapFault e.1 e.2) ∧
      ∀ d c,
        ((run.2.finish.2.find? d c).isSome = true ↔ ∃ f, (d, f) ∈ calls ∧ f.isGroupedConstant = true ∧ f.name = c) ∧
          run.2.finish.2.find? d c =
            if InGap run.1 d c then some (.rejected (.constant .nonconsecutive)) else lastOutcome run.1 d c := by
  intro run
  refine ⟨Validator.judgeAll_fields calls, ?_, fun d c => ⟨?_, Validator.find?_finish calls d c⟩⟩
  · obtain ⟨firsts, ordered, mem, faults⟩ := Validator.exists_gapFaults calls
    refine ⟨firsts, ordered, mem, ?_⟩
    rw [faults]
    congr 1
    rw [List.filterMap_eq_flatMap_toList]
    exact List.flatMap_congr fun j hj => Validator.diagnostics_eq hj
  · rw [Validator.find?_finish]
    split
    · rename_i gap
      exact ⟨fun _ => Validator.checked_of_inGap gap, fun _ => rfl⟩
    · exact Validator.isSome_lastOutcome_iff calls d c

end Constants
end FlowCheck
