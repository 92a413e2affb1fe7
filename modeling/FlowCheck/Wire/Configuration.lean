/-
  FlowCheck.Wire.Configuration — options written as TOML.

  Every key is optional. Keys that mean nothing are refused, but for those among the bounds of the
  solver, which are skipped if only their values can be read. A table may also be given as an array
  of its values in order, what comes after them being skipped unread. A date is a table with one key
  that means nothing.
-/

import FlowCheck.Options
import FlowCheck.Toml.Document

namespace FlowCheck

namespace Toml

def asBool? : Toml → Option Bool
  | .boolean b => some b
  | _ => none

def asString? : Toml → Option String
  | .string s => some s
  | _ => none

/-- An integer without sign, of 64 bits. -/
def asUInt64? : Toml → Option UInt64
  | .integer (.ofNat n) => if n < UInt64.size then some (.ofNat n) else none
  | _ => none

/-- The values of a table with keys called `names`; others are refused if `strict`. -/
def asRecord? (names : List String) (strict : Bool) : Toml → Option (List (String × Toml))
  | .table entries =>
    if entries.all fun (k, v) => names.contains k || (!strict && v.isReadable) then some entries
    else none
  | .array items => some (names.zip items)
  | .moment => if strict then none else some []
  | _ => none

def get? {α : Type} (entries : List (String × Toml)) (k : String) (default : α) (f : Toml → Option α) :
    Option α :=
  match entries.lookup k with
  | some v => f v
  | none => some default

/-- A label: its name, or a table with its name as the only key and nothing under it. -/
def asLabel? : Toml → Option Purity.Label
  | .string s => Purity.Label.all.find? (·.name == s)
  | .table [(k, .table [])] | .table [(k, .array [])] => Purity.Label.all.find? (·.name == k)
  | _ => none

def asCallees? : Toml → Option (SortedMap String Purity.Label)
  | .table entries => do return .ofList (← entries.mapM fun (k, v) => do return (k, ← asLabel? v))
  | _ => none

def asPurityOptions? (t : Toml) : Option PurityOptions := do
  let names := ["assume_side_effect_free", "assume_deterministic", "assume_pure", "report", "callees"]
  let entries ← asRecord? names true t
  let default : PurityOptions := {}
  return {
    assumeSideEffectFree := ← get? entries "assume_side_effect_free" default.assumeSideEffectFree asBool?
    assumeDeterministic := ← get? entries "assume_deterministic" default.assumeDeterministic asBool?
    assumePure := ← get? entries "assume_pure" default.assumePure asBool?
    report := ← get? entries "report" default.report asString?
    callees := ← get? entries "callees" default.callees asCallees? }

def asConstantOptions? (t : Toml) : Option ConstantOptions := do
  let entries ← asRecord? ["report"] true t
  return { report := ← get? entries "report" ({} : ConstantOptions).report asString? }

def asLimits? (t : Toml) : Option Limits := do
  let entries ← asRecord? ["widen_delay", "max_block_visits"] false t
  let default : Limits := {}
  return {
    widenDelay := ← get? entries "widen_delay" default.widenDelay asUInt64?
    maxVisits := ← get? entries "max_block_visits" default.maxVisits asUInt64? }

end Toml

def Options.ofToml? (text : String) : Option Options := do
  let entries ← Toml.asRecord? ["purity", "constants", "engine"] true (.table (← Toml.ofText? text))
  return {
    purity := ← Toml.get? entries "purity" {} Toml.asPurityOptions?
    constants := ← Toml.get? entries "constants" {} Toml.asConstantOptions?
    engine := ← Toml.get? entries "engine" {} Toml.asLimits? }

end FlowCheck
