/-
  FlowCheck.Json.Text — writing values as text.

  Compact text has no blanks at all. Laid-out text puts every item on a line of its own, two
  spaces further in than its container; empty containers stay on one line. Characters are written
  as they are, but for quotes, backslashes and control characters.
-/

import FlowCheck.Json.Value

namespace FlowCheck.Json

def hexByte (n : Nat) : String :=
  String.ofList [Nat.digitChar (n / 16), Nat.digitChar (n % 16)]

def escapeChar (c : Char) : String :=
  match c with
  | '"' => "\\\""
  | '\\' => "\\\\"
  | '\x08' => "\\b"
  | '\x0c' => "\\f"
  | '\n' => "\\n"
  | '\r' => "\\r"
  | '\t' => "\\t"
  | c => if c.toNat < 0x20 then "\\u00" ++ hexByte c.toNat else c.toString

def quoted (s : String) : String := "\"" ++ s.foldl (fun done c => done ++ escapeChar c) "" ++ "\""

/-- Line break and indentation, or nothing for compact text (`none`). -/
def lineBreak : Option Nat → String
  | none => ""
  | some depth => "\n" ++ String.ofList (List.replicate (2 * depth) ' ')

def inner : Option Nat → Option Nat := Option.map (· + 1)

mutual

/-- Text of a value; `depth` is its nesting in laid-out text, `none` asks for compact text. -/
def render (depth : Option Nat) : Json → String
  | .array [] _ => "[]"
  | .object [] _ => "\x7b\x7d"
  | .array items _ => "[" ++ renderItems (inner depth) items ++ lineBreak depth ++ "]"
  | .object members _ => "\x7b" ++ renderMembers (inner depth) members ++ lineBreak depth ++ "\x7d"
  | .null | .alien | .misnamed _ | .broken => "null"
  | .bool true => "true"
  | .bool false => "false"
  | .number n => toString n
  | .string s => quoted s

def renderItems (depth : Option Nat) : List Json → String
  | [] => ""
  | [v] => lineBreak depth ++ render depth v
  | v :: rest => lineBreak depth ++ render depth v ++ "," ++ renderItems depth rest

def renderMembers (depth : Option Nat) : List (String × Json) → String
  | [] => ""
  | [m] => lineBreak depth ++ renderMember depth m
  | m :: rest => lineBreak depth ++ renderMember depth m ++ "," ++ renderMembers depth rest

def renderMember (depth : Option Nat) : String × Json → String
  | (name, v) => quoted name ++ (if depth.isSome then ": " else ":") ++ render depth v

end

def compact (j : Json) : String := render none j

def laidOut (j : Json) : String := render (some 0) j

end FlowCheck.Json
