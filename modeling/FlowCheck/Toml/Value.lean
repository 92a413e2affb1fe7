/-
  FlowCheck.Toml.Value — values of TOML.

  What a float or a date says is of no use to a configuration, so only its spelling is checked.
  A number may be well spelt and still have no value: it is too large, or lacks digits of its base.
  Such a number does no harm where nobody looks at it.
-/

namespace FlowCheck

/-- A TOML value; tables keep the order of their keys. -/
inductive Toml where
  | string (s : String)
  | integer (n : Int)
  | float
  /-- A number without a value. -/
  | unreadable
  | boolean (b : Bool)
  /-- A date, a time, or both. -/
  | moment
  | array (items : List Toml)
  | table (entries : List (String × Toml))
  deriving Inhabited

namespace Toml

mutual

/-- Every number in it has a value. -/
def isReadable : Toml → Bool
  | .unreadable => false
  | .array items => readableItems items
  | .table entries => readableEntries entries
  | _ => true

def readableItems : List Toml → Bool
  | [] => true
  | v :: rest => v.isReadable && readableItems rest

def readableEntries : List (String × Toml) → Bool
  | [] => true
  | (_, v) :: rest => v.isReadable && readableEntries rest

end

end Toml

end FlowCheck
