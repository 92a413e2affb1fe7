/-
  FlowCheck.Toml.Scalar — values without brackets and quotes.

  A bare word is a truth value, a date or time, or a number. It goes on to the next character with a
  meaning of its own in a document; blanks belong to it if more of such a word follows them, as the
  time of day follows a date.
-/

import FlowCheck.Toml.Moment
import FlowCheck.Toml.Text

namespace FlowCheck.Toml

/-- Ends a bare word, unless it is a blank and the word goes on after it. -/
def endsWord (c : Char) : Bool :=
  ['=', ',', '[', ']', '\x7b', '\x7d', ' ', '\t', '#', '\r', '\n'].contains c

def opensWord (c : Char) : Bool := !endsWord c && c != '.' && c != '"' && c != '\''

def word : List Char → List Char × List Char
  | [] => ([], [])
  | c :: rest =>
    if endsWord c && !(isBlank c && (rest.dropWhile isBlank).head?.any opensWord) then ([], c :: rest)
    else
      let (more, rest) := word rest
      (c :: more, rest)

def ofWord? (w : List Char) : Option Toml :=
  if w = ['t', 'r', 'u', 'e'] then some (.boolean true)
  else if w = ['f', 'a', 'l', 's', 'e'] then some (.boolean false)
  else if isMoment w then some .moment
  else number? w

end FlowCheck.Toml
