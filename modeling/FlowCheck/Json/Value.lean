/-
  FlowCheck.Json.Value — JSON values, also of text that breaks off.

  Reading reports the first fault in text order, and a fault in the text may come after one in what
  it says. So a text that is not JSON still has a value: everything up to the fault, with the
  containers the fault left open marked as not closed. Members keep their order and repetitions.
-/

namespace FlowCheck

/-- A JSON value, as far as its text goes. -/
inductive Json where
  | null
  | bool (b : Bool)
  /-- A number written as an integer, other than `-0`. -/
  | number (n : Int)
  | string (s : String)
  /-- Well-formed text that no type reads: a number with a fraction or an exponent, `-0`, a string
  with an unpaired surrogate. -/
  | alien
  /-- `closed` says whether the text got to the closing bracket. -/
  | array (items : List Json) (closed : Bool)
  | object (members : List (String × Json)) (closed : Bool)
  /-- The value of a member whose name has an unpaired surrogate, and so counts as no name at all. -/
  | misnamed (value : Json)
  /-- The text breaks off where a value should be. -/
  | broken
  deriving Inhabited

namespace Json

abbrev list (items : List Json) : Json := .array items true

abbrev record (members : List (String × Json)) : Json := .object members true

/-- The text does not break off inside the value. A fault leaves every container around it open,
so the outermost one tells. -/
def isWhole : Json → Bool
  | .broken => false
  | .misnamed v => v.isWhole
  | .array _ closed | .object _ closed => closed
  | _ => true

/-- The value of the first member with this name. -/
def member? : Json → String → Option Json
  | .object members _, name => (members.find? (·.1 == name)).map (·.2)
  | _, _ => none

end Json

end FlowCheck
