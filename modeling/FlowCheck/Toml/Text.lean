/-
  FlowCheck.Toml.Text — strings in their four spellings.

  A string stands on one line or on several, and knows escapes if its quotes are double. Line breaks
  are kept as they are written, but for one right after the opening quotes; a carriage return is
  allowed only as part of a line break.
-/

import FlowCheck.Toml.Number

namespace FlowCheck.Toml

def isBlank (c : Char) : Bool := c == ' ' || c == '\t'

def isPlain (c : Char) : Bool := c == '\t' || (0x20 ≤ c.toNat && c.toNat != 0x7F)

def codePoint? (count : Nat) (text : List Char) : Option (Char × List Char) := do
  let digits := text.take count
  guard (digits.length = count)
  let n ← digits.foldlM (fun n c => (hexDigit? c).map (16 * n + ·)) 0
  guard n.isValidChar
  return (Char.ofNat n, text.drop count)

def escape? : List Char → Option (Char × List Char)
  | 'b' :: rest => some ('\x08', rest)
  | 't' :: rest => some ('\t', rest)
  | 'n' :: rest => some ('\n', rest)
  | 'f' :: rest => some ('\x0c', rest)
  | 'r' :: rest => some ('\r', rest)
  | 'e' :: rest => some ('\x1b', rest)
  | '"' :: rest => some ('"', rest)
  | '\\' :: rest => some ('\\', rest)
  | 'x' :: rest => codePoint? 2 rest
  | 'u' :: rest => codePoint? 4 rest
  | 'U' :: rest => codePoint? 8 rest
  | _ => none

def dropSpace : List Char → List Char
  | '\r' :: '\n' :: rest => dropSpace rest
  | c :: rest => if isBlank c || c == '\n' then dropSpace rest else c :: rest
  | [] => []

/-- After a backslash that ends a line: the text from the next character that is no blank. -/
def afterLineEnd? (text : List Char) : Option (List Char) :=
  match text.dropWhile isBlank with
  | '\n' :: rest | '\r' :: '\n' :: rest => some (dropSpace rest)
  | _ => none

/-- The rest of a string on one line; `q` is its quote. Only double quotes allow escapes. -/
def line? (fuel : Nat) (q : Char) (done : List Char) (text : List Char) : Option (String × List Char) :=
  match fuel, text with
  | fuel + 1, c :: rest =>
    if c == q then some (String.ofList done.reverse, rest)
    else if c == '\\' && q == '"' then
      match escape? rest with
      | some (e, rest) => line? fuel q (e :: done) rest
      | none => none
    else if isPlain c then line? fuel q (c :: done) rest
    else none
  | _, _ => none

/-- The rest of a string over several lines. Up to two quotes may stand before the closing three. -/
def lines? (fuel : Nat) (q : Char) (done : List Char) (text : List Char) : Option (String × List Char) :=
  match fuel, text with
  | fuel + 1, c :: rest =>
    if c == q then
      let run := text.takeWhile (· == q)
      if run.length < 3 then lines? fuel q (c :: done) rest
      else if run.length ≤ 5 then
        some (String.ofList (List.replicate (run.length - 3) q ++ done).reverse, text.drop run.length)
      else none
    else if c == '\\' && q == '"' then
      match escape? rest, afterLineEnd? rest with
      | some (e, rest), _ => lines? fuel q (e :: done) rest
      | none, some rest => lines? fuel q done rest
      | none, none => none
    else if c == '\n' || isPlain c || (c == '\r' && rest.head? == some '\n') then
      lines? fuel q (c :: done) rest
    else none
  | _, _ => none

def dropFirstBreak : List Char → List Char
  | '\n' :: rest | '\r' :: '\n' :: rest => rest
  | text => text

def shortString? (text : List Char) : Option (String × List Char) :=
  match text with
  | '"' :: rest => line? text.length '"' [] rest
  | '\'' :: rest => line? text.length '\'' [] rest
  | _ => none

def string? (text : List Char) : Option (String × List Char) :=
  match text with
  | '"' :: '"' :: '"' :: rest => lines? text.length '"' [] (dropFirstBreak rest)
  | '\'' :: '\'' :: '\'' :: rest => lines? text.length '\'' [] (dropFirstBreak rest)
  | _ => shortString? text

end FlowCheck.Toml
