/-
  FlowCheck.SortedMap — finite maps as key-sorted lists.

  Stores, reports, constant groups and declared fields are all looked up by key and listed in
  key order. Keeping the entries strictly ascending makes the representation canonical: two maps
  with the same bindings are the same list, so the solver's equality tests mean what they should.

  `find?_insert` and `find?_erase` say what the two updates do to a lookup; order and absence of
  repeated keys are part of the type.
-/

namespace FlowCheck

structure SortedMap (κ ν : Type) [Ord κ] where
  entries : List (κ × ν)
  ascending : entries.Pairwise (fun a b => compare a.1 b.1 = .lt)

abbrev SortedSet (κ : Type) [Ord κ] := SortedMap κ Unit

namespace SortedMap

variable {κ ν μ : Type} [Ord κ]

theorem ext {a b : SortedMap κ ν} (h : a.entries = b.entries) : a = b := by
  cases a; cases b; cases h; rfl

instance [DecidableEq κ] [DecidableEq ν] : DecidableEq (SortedMap κ ν) := fun a b =>
  if h : a.entries = b.entries then isTrue (ext h) else isFalse (fun e => h (e ▸ rfl))

def empty : SortedMap κ ν := ⟨[], .nil⟩

instance : Inhabited (SortedMap κ ν) := ⟨empty⟩

def isAt (k : κ) (e : κ × ν) : Bool := compare e.1 k == .eq

def find? (m : SortedMap κ ν) (k : κ) : Option ν := (m.entries.find? (isAt k)).map (·.2)

def contains (m : SortedMap κ ν) (k : κ) : Bool := (m.find? k).isSome

def keys (m : SortedMap κ ν) : List κ := m.entries.map (·.1)

def values (m : SortedMap κ ν) : List ν := m.entries.map (·.2)

def size (m : SortedMap κ ν) : Nat := m.entries.length

def isEmpty (m : SortedMap κ ν) : Bool := m.entries.isEmpty

def filter (m : SortedMap κ ν) (p : κ → ν → Bool) : SortedMap κ ν :=
  ⟨m.entries.filter fun e => p e.1 e.2, m.ascending.filter _⟩

def erase (m : SortedMap κ ν) (k : κ) : SortedMap κ ν :=
  ⟨m.entries.filter fun e => !isAt k e, m.ascending.filter _⟩

/-- Applies `f` to every value; a `none` drops the entry. -/
def filterMap (m : SortedMap κ ν) (f : κ → ν → Option μ) : SortedMap κ μ where
  entries := m.entries.filterMap fun e => (f e.1 e.2).map (e.1, ·)
  ascending := by
    refine List.Pairwise.filterMap _ ?_ m.ascending
    intro a b hab c hc d hd
    obtain ⟨_, _, rfl⟩ := Option.map_eq_some_iff.mp hc
    obtain ⟨_, _, rfl⟩ := Option.map_eq_some_iff.mp hd
    exact hab

def mapValues (m : SortedMap κ ν) (f : ν → μ) : SortedMap κ μ := m.filterMap fun _ v => some (f v)

/-- The keys of both maps, each with what `f` makes of its two values; a `none` drops the key. -/
def intersectWith (f : ν → ν → Option μ) (a b : SortedMap κ ν) : SortedMap κ μ :=
  a.filterMap fun k v => (b.find? k).bind (f v)

/-- Sorted insertion; an entry with the same key is replaced. -/
def insertEntry (k : κ) (v : ν) : List (κ × ν) → List (κ × ν)
  | [] => [(k, v)]
  | e :: rest =>
    match compare k e.1 with
    | .lt => (k, v) :: e :: rest
    | .eq => (k, v) :: rest
    | .gt => e :: insertEntry k v rest

theorem mem_insertEntry {k : κ} {v : ν} {e : κ × ν} {l : List (κ × ν)}
    (h : e ∈ insertEntry k v l) : e = (k, v) ∨ e ∈ l := by
  induction l with
  | nil => simpa [insertEntry] using h
  | cons d rest ih =>
    rw [insertEntry] at h
    split at h
    · simpa using h
    · rcases List.mem_cons.mp h with h | h
      · exact .inl h
      · exact .inr (List.mem_cons_of_mem _ h)
    · rcases List.mem_cons.mp h with h | h
      · exact .inr (h ▸ List.mem_cons_self)
      · exact (ih h).imp_right (List.mem_cons_of_mem _)

variable [Std.TransOrd κ]

theorem insertEntry_ascending (k : κ) (v : ν) {l : List (κ × ν)}
    (h : l.Pairwise (fun a b => compare a.1 b.1 = .lt)) :
    (insertEntry k v l).Pairwise (fun a b => compare a.1 b.1 = .lt) := by
  induction l with
  | nil => simp [insertEntry]
  | cons e rest ih =>
    have head {d} (hd : d ∈ rest) : compare e.1 d.1 = .lt := List.rel_of_pairwise_cons h hd
    rw [insertEntry]
    split
    · rename_i lt
      refine List.pairwise_cons.mpr ⟨fun d hd => ?_, h⟩
      rcases List.mem_cons.mp hd with rfl | hd
      · exact lt
      · exact Std.TransCmp.lt_trans lt (head hd)
    · rename_i eq
      exact List.pairwise_cons.mpr ⟨fun d hd => Std.TransCmp.lt_of_eq_of_lt eq (head hd), h.of_cons⟩
    · rename_i gt
      refine List.pairwise_cons.mpr ⟨fun d hd => ?_, ih h.of_cons⟩
      rcases mem_insertEntry hd with rfl | hd
      · exact Std.OrientedCmp.gt_iff_lt.mp gt
      · exact head hd

def insert (m : SortedMap κ ν) (k : κ) (v : ν) : SortedMap κ ν :=
  ⟨insertEntry k v m.entries, insertEntry_ascending k v m.ascending⟩

/-- Later bindings of a key replace earlier ones. -/
def ofList (l : List (κ × ν)) : SortedMap κ ν := l.foldl (fun m e => m.insert e.1 e.2) empty

def setOf (l : List κ) : SortedSet κ := ofList (l.map (·, ()))

/-! ## Lookups after an update -/

omit [Std.TransOrd κ] in
@[simp] theorem find?_empty (k : κ) : (empty : SortedMap κ ν).find? k = none := rfl

variable [Std.LawfulEqOrd κ] [DecidableEq κ]

omit [Std.TransOrd κ] [DecidableEq κ] in
@[simp] theorem isAt_iff {k : κ} {e : κ × ν} : isAt k e = true ↔ e.1 = k := by simp [isAt]

omit [Std.TransOrd κ] in
theorem find?_insertEntry (k j : κ) (v : ν) (l : List (κ × ν)) :
    ((insertEntry k v l).find? (isAt j)).map (·.2)
      = if k = j then some v else (l.find? (isAt j)).map (·.2) := by
  induction l with
  | nil => by_cases h : k = j <;> simp [insertEntry, isAt, h]
  | cons e rest ih =>
    rw [insertEntry]
    split
    · by_cases h : k = j <;> simp [isAt, h]
    · rename_i eq
      have eq : k = e.1 := Std.LawfulEqOrd.compare_eq_iff_eq.mp eq
      by_cases h : k = j <;> simp [isAt, h, ← eq]
    · rename_i gt
      by_cases h : e.1 = j
      · have : k ≠ j := by rintro rfl; simp [h] at gt
        simp [isAt, h, this]
      · simpa [isAt, h] using ih

theorem find?_insert (m : SortedMap κ ν) (k j : κ) (v : ν) :
    (m.insert k v).find? j = if k = j then some v else m.find? j :=
  find?_insertEntry k j v m.entries

omit [Std.TransOrd κ] in
theorem find?_erase (m : SortedMap κ ν) (k j : κ) :
    (m.erase k).find? j = if k = j then none else m.find? j := by
  obtain ⟨l, hl⟩ := m
  simp only [erase, find?]
  clear hl
  induction l with
  | nil => simp
  | cons e rest ih =>
    by_cases hj : e.1 = j
    · subst hj
      by_cases hk : e.1 = k
      · subst hk; simp [isAt]
      · simp [isAt, hk, Ne.symm hk]
    · by_cases hk : e.1 = k <;> simp_all [isAt]

end SortedMap

end FlowCheck
