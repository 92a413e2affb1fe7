/-
  FlowCheck.Slots — one value per index, and one value for every index outside.

  Per-block and per-node tables of the solver. Reading outside the table is not an error: a point
  that does not exist answers like a point that was never reached.

  `get_set_same` / `get_set_ne` are the two facts about an update.
-/

namespace FlowCheck

/-- A table with `cells.size` slots; every other index holds `outside`. -/
structure Slots (α : Type) where
  cells : Array α
  outside : α
  deriving DecidableEq, Inhabited

namespace Slots

variable {α : Type}

def filled (n : Nat) (a : α) : Slots α := ⟨Array.replicate n a, a⟩

def tabulate (n : Nat) (outside : α) (f : Nat → α) : Slots α := ⟨Array.ofFn (n := n) (f ·), outside⟩

def size (t : Slots α) : Nat := t.cells.size

def get (t : Slots α) (i : Nat) : α := t.cells.getD i t.outside

/-- Writing outside the table changes nothing. -/
def set (t : Slots α) (i : Nat) (a : α) : Slots α := { t with cells := t.cells.setIfInBounds i a }

def modify (t : Slots α) (i : Nat) (f : α → α) : Slots α := t.set i (f (t.get i))

@[simp] theorem size_filled (n : Nat) (a : α) : (filled n a).size = n := Array.size_replicate

@[simp] theorem size_set (t : Slots α) (i : Nat) (a : α) : (t.set i a).size = t.size := by
  simp [set, size]

@[simp] theorem get_filled (n i : Nat) (a : α) : (filled n a).get i = a := by
  simp only [filled, get, Array.getD_eq_getD_getElem?, Array.getElem?_replicate]
  split <;> rfl

theorem get_tabulate (n : Nat) (a : α) (f : Nat → α) (i : Nat) :
    (tabulate n a f).get i = if i < n then f i else a := by
  simp only [tabulate, get, Array.getD_eq_getD_getElem?, Array.getElem?_ofFn]
  split <;> rfl

theorem get_set_same (t : Slots α) {i : Nat} (a : α) (h : i < t.size) : (t.set i a).get i = a := by
  have h : i < t.cells.size := h
  simp [set, get, Array.getD_eq_getD_getElem?, h]

theorem get_set_ne (t : Slots α) {i j : Nat} (a : α) (h : i ≠ j) : (t.set i a).get j = t.get j := by
  simp [set, get, Array.getD_eq_getD_getElem?, h]

theorem get_set (t : Slots α) (i j : Nat) (a : α) :
    (t.set i a).get j = if i = j ∧ i < t.size then a else t.get j := by
  by_cases e : i = j
  · subst e
    by_cases h : i < t.size
    · rw [get_set_same t a h, if_pos ⟨rfl, h⟩]
    · have out : t.cells.size ≤ i := Nat.le_of_not_lt h
      simp [h, set, get, Array.getD_eq_getD_getElem?, out]
  · rw [get_set_ne t a e, if_neg fun h => e h.1]

theorem get_modify (t : Slots α) (i j : Nat) (f : α → α) :
    (t.modify i f).get j = if i = j ∧ i < t.size then f (t.get i) else t.get j := get_set t i j _

end Slots

end FlowCheck
