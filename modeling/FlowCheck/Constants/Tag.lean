/-
  FlowCheck.Constants.Tag — which group of constants a value belongs to.

  A value belongs to one group, to none (`plain`), or it is not known which; as a domain, groups
  are unrelated. Values of different groups must not meet: two tags are comparable only when they
  are equal or one of them is an extreme.
-/

import FlowCheck.Domain.Flat
import FlowCheck.Domain.Qualified
import FlowCheck.Text.Quoted

namespace FlowCheck.Constants

inductive Membership where
  /-- An ordinary value. -/
  | plain
  | member (group : String)
  deriving DecidableEq, Repr, Inhabited

abbrev Tag := Flat Membership

namespace Tag

def plain : Tag := .value .plain

def ofGroup : Option String → Tag
  | some group => .value (.member group)
  | none => plain

def group? : Tag → Option String
  | .value (.member group) => some group
  | _ => none

def display : Tag → String
  | .bottom => "FenumBottom"
  | .top => "FenumTop"
  | .value .plain => "FenumUnqualified"
  | .value (.member group) => "@Fenum(" ++ Text.quote group ++ ")"

end Tag

abbrev TaggedValue := Qualified Tag

namespace TaggedValue

def plain (type : ValueType) : TaggedValue := .typed type Tag.plain

/-- As diagnostics show it: the tag, then the type. -/
def display : TaggedValue → String
  | .never => "FenumBottom"
  | .typed type tag => Tag.display tag ++ " " ++ type.display

end TaggedValue

end FlowCheck.Constants
