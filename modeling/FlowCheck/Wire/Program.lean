/-
  FlowCheck.Wire.Program — the JSON forms of programs and options.
-/

import FlowCheck.Options
import FlowCheck.Program
import FlowCheck.Wire.Graph

namespace FlowCheck

open Json

instance : Form ValueType where
  toJson
    | .reference name => tagged "reference" name
    | t => .string t.display
  ofJson := readChoice
    [("int", bare .int), ("text", bare .text), ("bool", bare .bool), ("reference", holding ValueType.reference),
      ("unknown", bare .unknown)]

instance : Form Purity.Label where
  toJson l := .string l.name
  ofJson := readName Purity.Label.all Purity.Label.name

instance : Form Pattern where
  toJson p := .string p.name
  ofJson := readName Pattern.all Pattern.name

instance : Form Modifiers where
  toJson m := .record
    [("public", toJson m.isPublic), ("static", toJson m.isStatic), ("final", toJson m.isFinal)]
  ofJson := readRecord ["public", "static", "final"] fun m =>
    Modifiers.mk <$> m.optional "public" false <*> m.optional "static" false <*> m.optional "final" false

instance : Form Field where
  toJson f := .record
    [("name", toJson f.name), ("underlying", toJson f.type), ("qualifier", toJson f.group),
      ("pattern", toJson f.pattern), ("initializer", toJson f.initializer), ("modifiers", toJson f.modifiers),
      ("span", toJson f.location)]
  ofJson :=
    readRecord ["name", "underlying", "qualifier", "pattern", "initializer", "modifiers", "span"] fun m =>
      Field.mk <$> m.required "name" <*> m.required "underlying" <*> m.optional "qualifier" none
        <*> m.optional "pattern" .unconstrained <*> m.optional "initializer" none
        <*> m.optional "modifiers" {} <*> m.optional "span" .unknown

instance : Form Parameter where
  toJson p := .record [("name", toJson p.name), ("underlying", toJson p.type), ("qualifier", toJson p.group)]
  ofJson := readRecord ["name", "underlying", "qualifier"] fun m =>
    Parameter.mk <$> m.required "name" <*> m.required "underlying" <*> m.optional "qualifier" none

instance : Form Routine where
  toJson r := .record
    [("name", toJson r.name), ("signature", toJson r.givenSignature), ("params", toJson r.parameters),
      ("body", toJson r.body), ("declared_purity", toJson r.declaredPurity), ("span", toJson r.location)]
  ofJson := readRecord ["name", "signature", "params", "body", "declared_purity", "span"] fun m =>
    Routine.mk <$> m.required "name" <*> m.optional "signature" none <*> m.optional "params" []
      <*> m.optional "body" none <*> m.optional "declared_purity" none <*> m.optional "span" .unknown

instance : Form Declaration where
  toJson d := .record
    [("name", toJson d.name), ("fields", toJson d.fields), ("routines", toJson d.routines),
      ("span", toJson d.location)]
  ofJson := readRecord ["name", "fields", "routines", "span"] fun m =>
    Declaration.mk <$> m.required "name" <*> m.optional "fields" [] <*> m.optional "routines" []
      <*> m.optional "span" .unknown

instance : Form Program where
  toJson p := .record [("declarations", toJson p.declarations)]
  ofJson := readRecord ["declarations"] fun m => Program.mk <$> m.optional "declarations" []

/-! ## Options -/

instance : Form Limits where
  toJson l := .record [("widen_delay", toJson l.widenDelay), ("max_block_visits", toJson l.maxVisits)]
  ofJson := readRecord ["widen_delay", "max_block_visits"] fun m =>
    Limits.mk <$> m.optional "widen_delay" ({} : Limits).widenDelay
      <*> m.optional "max_block_visits" ({} : Limits).maxVisits

/-- The options of the purity check refuse members they do not know. -/
instance : Form PurityOptions where
  toJson o := .record
    [("assume_side_effect_free", toJson o.assumeSideEffectFree),
      ("assume_deterministic", toJson o.assumeDeterministic), ("assume_pure", toJson o.assumePure),
      ("report", toJson o.report), ("callees", toJson o.callees)]
  ofJson :=
    let names := ["assume_side_effect_free", "assume_deterministic", "assume_pure", "report", "callees"]
    let fields := fun (m : Members) =>
      PurityOptions.mk <$> m.optional "assume_side_effect_free" false <*> m.optional "assume_deterministic" false
        <*> m.optional "assume_pure" false <*> m.optional "report" ({} : PurityOptions).report
        <*> m.optional "callees" .empty
    readRecord names fields true

instance : Form Purity.Properties where
  toJson p := .record
    [("deterministic", toJson p.deterministic), ("side_effect_free", toJson p.sideEffectFree)]
  ofJson := readRecord ["deterministic", "side_effect_free"] fun m =>
    Purity.Properties.mk <$> m.required "deterministic" <*> m.required "side_effect_free"

/-- Options are only ever written in this form; they are read from a configuration. -/
def Options.toJson (o : Options) : Json := .record
  [("purity", Form.toJson o.purity), ("constants", .record [("report", Form.toJson o.constants.report)]),
    ("engine", Form.toJson o.engine)]

end FlowCheck
