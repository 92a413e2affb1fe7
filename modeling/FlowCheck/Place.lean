/-
  FlowCheck.Place — what a store can hold a value for.

  Places are ordered so that stores list their contents in one order only: locals, then fields by
  owner and name, then expressions; names compare by code point.
-/

namespace FlowCheck

/-- A program entity whose abstract value can be tracked. -/
inductive Place where
  /-- A local variable or parameter. -/
  | local (name : String)
  /-- A field of an object (`owner` is the receiver) or of a type (`owner` declares it). -/
  | field (owner name : String)
  /-- An expression without side effects, by its canonical text. -/
  | expr (text : String)
  deriving DecidableEq, Repr, Inhabited

namespace Place

def isField : Place → Bool
  | .field .. => true
  | _ => false

def display : Place → String
  | .local name => name
  | .field owner name => owner ++ "." ++ name
  | .expr text => "(" ++ text ++ ")"

def rank : Place → Nat
  | .local _ => 0
  | .field .. => 1
  | .expr _ => 2

/-- The owner of a field; empty otherwise. -/
def owner : Place → String
  | .field owner _ => owner
  | _ => ""

def label : Place → String
  | .local name | .field _ name | .expr name => name

instance : Ord Place := ⟨compareLex (compareOn rank) (compareLex (compareOn owner) (compareOn label))⟩

instance : Std.TransOrd Place :=
  inferInstanceAs (Std.TransCmp (compareLex (compareOn rank) (compareLex (compareOn owner) (compareOn label))))

theorem eq_of_parts {a b : Place} (r : a.rank = b.rank) (o : a.owner = b.owner) (l : a.label = b.label) :
    a = b := by
  cases a <;> cases b <;> simp_all [rank, owner, label]

instance : Std.LawfulEqOrd Place where
  eq_of_compare {a b} h := by
    have h : compareLex (compareOn rank) (compareLex (compareOn owner) (compareOn label)) a b = .eq := h
    simp only [compareLex_eq_eq, compareOn, Std.LawfulEqOrd.compare_eq_iff_eq] at h
    exact eq_of_parts h.1 h.2.1 h.2.2

def precedes (a b : Place) : Bool := compare a b == .lt

end Place

end FlowCheck
