/-
  FlowCheck.Run — running the checks on text.

  A run may fail before it starts: on its configuration, on a switch nobody knows, on the program
  text, or on a file. Whatever a checked program does wrong is no failure but a diagnostic.
-/

import FlowCheck.Json.Text
import FlowCheck.Wire.Configuration
import FlowCheck.Wire.Findings

namespace FlowCheck

inductive RunError where
  | badConfiguration
  | unknownSwitch (name : String)
  | badProgram (fault : Json.Fault)
  /-- A file that cannot be read or written. -/
  | inaccessibleFile
  deriving DecidableEq, Repr

/-- The message, if the error has one of its own. As in `Json.Fault.message?`, the line and the column at
which a program text is at fault are left out. -/
def RunError.message? : RunError → Option String
  | .unknownSwitch name => some ("unknown option " ++ Json.backquoted name)
  | .badProgram fault => fault.message?.map ("JSON error: " ++ ·)
  | .badConfiguration | .inaccessibleFile => none

/-- The options of a configuration text, or the defaults without one. -/
def Options.ofText (text : Option String) : Except RunError Options :=
  match text with
  | none => .ok {}
  | some text => ((Options.ofToml? text).map .ok).getD (.error .badConfiguration)

def Options.configure (text : Option String) (switches : List String) : Except RunError Options := do
  let o ← Options.ofText text
  (o.switchAll switches).mapError .unknownSwitch

def Program.ofText (text : String) : Except RunError Program :=
  (Json.readText Json.ofJson text).mapError .badProgram

def runText (text : String) (o : Options) : Except RunError RunOutcome :=
  return (← Program.ofText text).check o

namespace RunOutcome

variable (o : RunOutcome)

def constantsText : String := Json.laidOut o.constantsJson

def purityText : String := Json.laidOut o.purityJson

end RunOutcome

end FlowCheck
