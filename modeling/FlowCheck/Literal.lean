/-
  FlowCheck.Literal — constants written in the analysed program.
-/

import FlowCheck.Text.Quoted

namespace FlowCheck

inductive Literal where
  | int (value : Int64)
  | text (value : String)
  | bool (value : Bool)
  | null
  deriving DecidableEq, Repr, Inhabited

/-- Text is shown quoted, so that `"1"` and `1` differ. -/
def Literal.display : Literal → String
  | .int v => toString v.toInt
  | .text s => Text.quote s
  | .bool true => "true"
  | .bool false => "false"
  | .null => "null"

end FlowCheck
