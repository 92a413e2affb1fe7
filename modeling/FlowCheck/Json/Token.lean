/-
  FlowCheck.Json.Token — the words of JSON text.

  Tokens are read until the text ends or stops being JSON. What follows a fault is not read: the
  reader that puts tokens together finds the text broken off there.
-/

import FlowCheck.Json.Value

namespace FlowCheck.Json

inductive Token where
  | openArray | closeArray | openObject | closeObject | colon | comma
  /-- A string, number or word, with its value. -/
  | atom (value : Json)
  /-- A string with an unpaired surrogate. -/
  | garbled
  deriving Inhabited

/-- A piece of a string: a character as it stands, or the 16-bit unit of a `\u` escape. -/
inductive Piece where
  | char (c : Char)
  | unit (u : Nat)

def isHighSurrogate (u : Nat) : Bool := 0xD800 ≤ u && u < 0xDC00

def isLowSurrogate (u : Nat) : Bool := 0xDC00 ≤ u && u < 0xE000

/-- The characters of a string; escaped surrogates count in pairs only. -/
def characters? : List Piece → Option (List Char)
  | [] => some []
  | .char c :: rest => (characters? rest).map (c :: ·)
  | .unit u :: rest =>
    if isHighSurrogate u then
      match rest with
      | .unit v :: rest =>
        if isLowSurrogate v then
          (characters? rest).map (Char.ofNat (0x10000 + (u - 0xD800) * 0x400 + (v - 0xDC00)) :: ·)
        else none
      | _ => none
    else if isLowSurrogate u then none
    else (characters? rest).map (Char.ofNat u :: ·)

def hexDigit? (c : Char) : Option Nat :=
  if c.isDigit then some (c.toNat - '0'.toNat)
  else if 'a' ≤ c && c ≤ 'f' then some (c.toNat - 'a'.toNat + 10)
  else if 'A' ≤ c && c ≤ 'F' then some (c.toNat - 'A'.toNat + 10)
  else none

def hexValue? (digits : List Char) : Option Nat :=
  digits.foldlM (fun n c => (hexDigit? c).map (16 * n + ·)) 0

def simpleEscape? : Char → Option Char
  | '"' => some '"'
  | '\\' => some '\\'
  | '/' => some '/'
  | 'b' => some '\x08'
  | 'f' => some '\x0c'
  | 'n' => some '\n'
  | 'r' => some '\r'
  | 't' => some '\t'
  | _ => none

def pieces? (done : List Piece) : List Char → Option (List Piece × List Char)
  | [] => none
  | '"' :: rest => some (done.reverse, rest)
  | '\\' :: 'u' :: a :: b :: c :: d :: rest =>
    match hexValue? [a, b, c, d] with
    | some u => pieces? (.unit u :: done) rest
    | none => none
  | '\\' :: e :: rest =>
    match simpleEscape? e with
    | some c => pieces? (.char c :: done) rest
    | none => none
  | c :: rest => if c.toNat < 0x20 || c == '\\' then none else pieces? (.char c :: done) rest

def string? (text : List Char) : Option (Token × List Char) :=
  (pieces? [] text).map fun (pieces, rest) =>
    match characters? pieces with
    | some cs => (.atom (.string (String.ofList cs)), rest)
    | none => (.garbled, rest)

def digitsValue (digits : List Char) : Nat := digits.foldl (fun n c => 10 * n + (c.toNat - '0'.toNat)) 0

def fraction? : List Char → Option (Bool × List Char)
  | '.' :: rest =>
    match rest.span Char.isDigit with
    | ([], _) => none
    | (_, rest) => some (true, rest)
  | text => some (false, text)

def exponent? : List Char → Option (Bool × List Char)
  | [] => some (false, [])
  | e :: rest =>
    if e == 'e' || e == 'E' then
      let unsigned := match rest with
        | '+' :: rest | '-' :: rest => rest
        | rest => rest
      match unsigned.span Char.isDigit with
      | ([], _) => none
      | (_, rest) => some (true, rest)
    else some (false, e :: rest)

def number? (text : List Char) : Option (Json × List Char) := do
  let (negative, text) := match text with
    | '-' :: rest => (true, rest)
    | text => (false, text)
  let (digits, text) := text.span Char.isDigit
  guard (digits ≠ [] ∧ (digits.head? = some '0' → digits.length = 1))
  let (hasFraction, text) ← fraction? text
  let (hasExponent, text) ← exponent? text
  let n := digitsValue digits
  let value : Json :=
    if hasFraction || hasExponent || (negative && n == 0) then .alien
    else .number (if negative then -(n : Int) else n)
  return (value, text)

def isBlank (c : Char) : Bool := c == ' ' || c == '\t' || c == '\n' || c == '\r'

def token? : List Char → Option (Token × List Char)
  | '[' :: rest => some (.openArray, rest)
  | ']' :: rest => some (.closeArray, rest)
  | '\x7b' :: rest => some (.openObject, rest)
  | '\x7d' :: rest => some (.closeObject, rest)
  | ':' :: rest => some (.colon, rest)
  | ',' :: rest => some (.comma, rest)
  | '"' :: rest => string? rest
  | 'n' :: 'u' :: 'l' :: 'l' :: rest => some (.atom .null, rest)
  | 't' :: 'r' :: 'u' :: 'e' :: rest => some (.atom (.bool true), rest)
  | 'f' :: 'a' :: 'l' :: 's' :: 'e' :: rest => some (.atom (.bool false), rest)
  | text => (number? text).map fun (v, rest) => (.atom v, rest)

/-- The tokens of a text, and whether they make up all of it. A token takes a character at least,
so `fuel` need not exceed the number of characters. -/
def tokensWithin (fuel : Nat) (text : List Char) : List Token × Bool :=
  match fuel, text.dropWhile isBlank with
  | _, [] => ([], true)
  | 0, _ => ([], false)
  | fuel + 1, text =>
    match token? text with
    | none => ([], false)
    | some (t, rest) =>
      let (tokens, complete) := tokensWithin fuel rest
      (t :: tokens, complete)

def tokens (text : String) : List Token × Bool := tokensWithin text.length text.toList

end FlowCheck.Json
