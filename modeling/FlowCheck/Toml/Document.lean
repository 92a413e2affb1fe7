/-
  FlowCheck.Toml.Document — reading TOML text.

  A document is a list of lines: headers, which say which table is current, and bindings of keys in
  the current table. Anything that is not quite TOML makes the whole text unreadable; so do brackets
  nested too deeply and keys with too many parts.
-/

import FlowCheck.Toml.Scalar
import FlowCheck.Toml.Section
import FlowCheck.Toml.Text

namespace FlowCheck.Toml

/-- How many arrays and inline tables may be open at once, and how many parts a key may have. -/
def maxDepth : Nat := 80

def skipBlanks (text : List Char) : List Char := text.dropWhile isBlank

def skipComment? : List Char → Option (List Char)
  | '#' :: rest =>
    let rest := rest.dropWhile isPlain
    match rest with
    | [] | '\n' :: _ | '\r' :: '\n' :: _ => some rest
    | _ => none
  | text => some text

def skipLines? (fuel : Nat) (text : List Char) : Option (List Char) :=
  match fuel with
  | 0 => none
  | fuel + 1 =>
    match skipComment? (skipBlanks text) with
    | some ('\n' :: rest) | some ('\r' :: '\n' :: rest) => skipLines? fuel rest
    | some rest => some rest
    | none => none

/-- The text of the next line, if nothing but a comment is left of this one. -/
def endLine? (text : List Char) : Option (List Char) :=
  match skipComment? (skipBlanks text) with
  | some [] => some []
  | some ('\n' :: rest) | some ('\r' :: '\n' :: rest) => some rest
  | _ => none

def isBareKeyChar (c : Char) : Bool := c.isAlphanum || c == '_' || c == '-'

def simpleKey? (text : List Char) : Option (String × List Char) :=
  match text.span isBareKeyChar with
  | ([], _) => shortString? text
  | (key, rest) => some (String.ofList key, rest)

def parts? (count : Nat) (text : List Char) : Option (List String × List Char) :=
  match count with
  | 0 => none
  | count + 1 => do
    let (k, rest) ← simpleKey? (skipBlanks text)
    match skipBlanks rest with
    | '.' :: rest =>
      let (path, rest) ← parts? count rest
      return (k :: path, rest)
    | rest => return ([k], rest)

def key? (text : List Char) : Option (List String × List Char) := parts? maxDepth text

mutual

/-- A value; `depth` more brackets may be opened in it. `fuel` bounds nesting and length: two for
each character are enough. -/
def value? (fuel depth : Nat) (text : List Char) : Option (Toml × List Char) :=
  match fuel with
  | 0 => none
  | fuel + 1 =>
    match depth, text with
    | 0, '[' :: _ | 0, '\x7b' :: _ => none
    | depth + 1, '[' :: rest => (items? fuel depth rest).map fun (items, rest) => (.array items, rest)
    | depth + 1, '\x7b' :: rest =>
      (inlineEntries? fuel depth [] rest).map fun (s, rest) => (.table (Section.toEntries s), rest)
    | _, '"' :: _ | _, '\'' :: _ => (string? text).map fun (s, rest) => (.string s, rest)
    | _, _ =>
      let (w, rest) := word text
      (ofWord? w).map (·, rest)

/-- The rest of an array. A comma may follow the last item. -/
def items? (fuel depth : Nat) (text : List Char) : Option (List Toml × List Char) :=
  match fuel with
  | 0 => none
  | fuel + 1 => do
    match ← skipLines? (text.length + 1) text with
    | ']' :: rest => return ([], rest)
    | text =>
      let (v, rest) ← value? fuel depth text
      match ← skipLines? (rest.length + 1) rest with
      | ']' :: rest => return ([v], rest)
      | ',' :: rest =>
        let (items, rest) ← items? fuel depth rest
        return (v :: items, rest)
      | _ => none

/-- The rest of an inline table. A comma may follow the last entry, and lines may be broken
anywhere but inside a key. -/
def inlineEntries? (fuel depth : Nat) (s : Section) (text : List Char) : Option (Section × List Char) :=
  match fuel with
  | 0 => none
  | fuel + 1 => do
    match ← skipLines? (text.length + 1) text with
    | '\x7d' :: rest => return (s, rest)
    | text =>
      let (key, rest) ← key? text
      let '=' :: rest ← skipLines? (rest.length + 1) rest | none
      let (v, rest) ← value? fuel depth (← skipLines? (rest.length + 1) rest)
      let s ← s.define key.dropLast (key.getLast?.getD "") v
      match ← skipLines? (rest.length + 1) rest with
      | '\x7d' :: rest => return (s, rest)
      | ',' :: rest => inlineEntries? fuel depth s rest
      | _ => none

end

def header? (closing : List Char) (text : List Char) : Option (List String × List Char) := do
  let (key, rest) ← key? text
  guard (closing.isPrefixOf rest)
  return (key, ← endLine? (rest.drop closing.length))

/-- Reads lines into `root`; `header` is the key of the last header. -/
def lines (fuel : Nat) (header : List String) (root : Section) (text : List Char) : Option Section :=
  match fuel with
  | 0 => none
  | fuel + 1 => do
    match ← skipLines? (text.length + 1) text with
    | [] => return root
    | '[' :: '[' :: rest =>
      let (key, rest) ← header? [']', ']'] rest
      let root ← root.within .implied (Section.openElement (key.getLast?.getD "")) .header key.dropLast
      lines fuel key root rest
    | '[' :: rest =>
      let (key, rest) ← header? [']'] rest
      let root ← root.within .implied (Section.openTable (key.getLast?.getD "")) .header key.dropLast
      lines fuel key root rest
    | text =>
      let (key, rest) ← key? text
      let '=' :: rest := rest | none
      let rest := skipBlanks rest
      let (v, rest) ← value? (2 * rest.length + 1) maxDepth rest
      let rest ← endLine? rest
      let root ← root.current (Section.define key.dropLast (key.getLast?.getD "") v) header
      lines fuel header root rest

/-- The top table of a document. A byte order mark at its start is skipped. -/
def ofText? (text : String) : Option (List (String × Toml)) :=
  let chars := match text.toList with
    | '\ufeff' :: rest => rest
    | chars => chars
  (lines (chars.length + 1) [] [] chars).map Section.toEntries

end FlowCheck.Toml
