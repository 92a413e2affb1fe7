/-
  FlowCheck.Location — where in the analysed source a construct was found.

  A graph never sees source text. A location is what whoever built the graph recorded: a byte
  range and a line and column, all zero when nothing is known.
-/

namespace FlowCheck

/-- A region of source text. Line and column count from one; line zero means "not recorded". -/
structure Location where
  /-- First byte. -/
  start : UInt64 := 0
  /-- One past the last byte. -/
  stop : UInt64 := 0
  line : UInt64 := 0
  column : UInt64 := 0
  deriving DecidableEq, Repr, Inhabited

namespace Location

def unknown : Location := {}

/-- Only the position of the first character. -/
def atLine (line column : UInt64) : Location := { line, column }

def isUnknown (l : Location) : Bool := l.line == 0

def startsBy (a b : Location) : Bool := a.line < b.line || (a.line == b.line && a.column ≤ b.column)

/-- The least region covering both, positioned where the earlier one starts. -/
def cover (a b : Location) : Location :=
  let first := if a.startsBy b then a else b
  { start := min a.start b.start, stop := max a.stop b.stop, line := first.line, column := first.column }

def display (l : Location) : String :=
  if l.isUnknown then "<unknown>" else s!"{l.line}:{l.column}"

end Location

end FlowCheck
