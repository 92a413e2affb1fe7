/-
  FlowCheck.Wire.Findings — the JSON forms of abstract values, diagnostics and reports.
-/

import FlowCheck.Domain.Flat
import FlowCheck.Session
import FlowCheck.Wire.Program

namespace FlowCheck

open Json

instance {α : Type} [Form α] : Form (Flat α) where
  toJson
    | .bottom => .string "bottom"
    | .value a => tagged "value" a
    | .top => .string "top"
  ofJson := readChoice [("bottom", bare .bottom), ("value", holding Flat.value), ("top", bare .top)]

instance {Q : Type} [Form Q] : Form (Qualified Q) where
  toJson
    | .never => .string "bottom"
    | .typed type q =>
      .record [("concrete", .record [("underlying", toJson type), ("qualifier", toJson q)])]
  ofJson := readChoice
    [("bottom", bare .never),
      ("concrete", holdingRecord ["underlying", "qualifier"] fun m =>
        Qualified.typed <$> m.required "underlying" <*> m.required "qualifier")]

def Diagnostic.toJson (d : Diagnostic) : Json := .record <|
  [("span", Form.toJson d.location), ("kind", .string d.kind.key), ("args", Form.toJson d.args)]
    ++ (d.context.map fun c => ("context", .string c)).toList

instance {α : Type} [Form α] : Form (Report α) where
  toJson r := toJson r.declarations
  ofJson j := Report.mk <$> ofJson j

def Report.namesToJson {α : Type} (name : α → String) (r : Report α) : Json :=
  toJson (r.declarations.mapValues (·.mapValues name))

namespace RunOutcome

variable (o : RunOutcome)

def constantsJson : Json := o.constants.namesToJson Constants.Outcome.name

def purityJson : Json := o.purity.namesToJson Purity.Label.name

def toJson : Json := .record
  [("diagnostics", .list (o.diagnostics.map (·.toJson))), ("constant_report", o.constantsJson),
    ("purity_report", o.purityJson)]

end RunOutcome

end FlowCheck
