/-
  FlowCheck.Text.Quoted — a string shown between double quotes, so that it can be told apart.

  Diagnostics show names and literals to people, so everything that would be invisible, would
  attach itself to a neighbour or would end the quotation is written as an escape. Letters of any
  script stay as they are.
-/

import FlowCheck.Text.Combining

namespace FlowCheck.Text

/-- Lower-case hexadecimal digits, without leading zeros. -/
def hex (n : Nat) : String := String.ofList (Nat.toDigits 16 n)

def quoteChar (c : Char) : String :=
  match c with
  | '\x00' => "\\0"
  | '\t' => "\\t"
  | '\r' => "\\r"
  | '\n' => "\\n"
  | '"' => "\\\""
  | '\\' => "\\\\"
  | ' ' => " "
  | c => if isCombining c || isUnprintable c then "\\u\x7b" ++ hex c.toNat ++ "\x7d" else c.toString

def quote (s : String) : String := "\"" ++ String.join (s.toList.map quoteChar) ++ "\""

end FlowCheck.Text
