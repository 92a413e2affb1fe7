/-
  FlowCheck.Toml.Number — integers and floats.

  A word is read as a number in two steps. Its spelling is checked first: the digits of a binary,
  octal or hexadecimal integer belong to its base, a decimal number has no superfluous zero,
  underscores stand between digits, and the parts of a float are there. Then its value is taken,
  and it may turn out to have none: an integer that needs more than 128 bits, a float that rounds
  to infinity, an integer that lacks digits or has some of another base.
-/

import FlowCheck.Toml.Value

namespace FlowCheck.Toml

/-! ## Digits -/

def hexDigit? (c : Char) : Option Nat :=
  if c.isDigit then some (c.toNat - '0'.toNat)
  else if 'a' ≤ c && c ≤ 'f' then some (c.toNat - 'a'.toNat + 10)
  else if 'A' ≤ c && c ≤ 'F' then some (c.toNat - 'A'.toNat + 10)
  else none

def isHexDigit (c : Char) : Bool := (hexDigit? c).isSome

def natural? (base : Nat) : List Char → Option Nat
  | [] => none
  | cs => cs.foldlM (fun n c => ((hexDigit? c).filter (· < base)).map (base * n + ·)) 0

def dropUnderscores (cs : List Char) : List Char := cs.filter (· != '_')

def dropSign : List Char → List Char
  | '+' :: rest | '-' :: rest => rest
  | cs => cs

/-- Each underscore stands before a digit, and after one unless it comes first. -/
def separated (isDigit : Char → Bool) : List Char → Bool
  | [] => true
  | c :: rest =>
    (if c == '_' then rest.head?.any isDigit else rest.head? != some '_' || isDigit c)
      && separated isDigit rest

def wellSeparated (isDigit : Char → Bool) (cs : List Char) : Bool :=
  (dropSign cs).head? != some '_' && separated isDigit (dropSign cs)

/-! ## Integers -/

/-- An integer, if 128 bits can hold it, with a sign or without. -/
def ofInteger : Option Int → Toml
  | some (.ofNat n) => if n < Nat.pow 2 128 then .integer n else .unreadable
  | some (.negSucc n) => if n < Nat.pow 2 127 then .integer (.negSucc n) else .unreadable
  | none => .unreadable

def based? (base : Nat) (cs : List Char) : Option Toml :=
  if cs.all (fun c => c == '_' || (hexDigit? c).any (· < base)) && wellSeparated isHexDigit cs then
    some (ofInteger ((natural? base (dropUnderscores cs)).map Int.ofNat))
  else none

/-- A decimal integer. Only what stands beside an underscore is checked, and a digit of base sixteen
will do there; such an integer has no value. -/
def decimal? (cs : List Char) : Option Toml :=
  let unsigned := dropSign cs
  if (unsigned.head? != some '0' || unsigned.length == 1) && wellSeparated isHexDigit cs then
    let n := (natural? 10 (dropUnderscores unsigned)).map Int.ofNat
    some (ofInteger (if cs.head? == some '-' then n.map (- ·) else n))
  else none

/-! ## Floats -/

/-- Whether the number that the digits write, times a power of ten, rounds to a finite double: it
is less than halfway from the largest one to the next power of two. -/
def isFinite (digits : List Char) (exponent : Int) : Bool :=
  match natural? 10 digits with
  | none | some 0 => true
  | some n =>
    let places := (digits.dropWhile (· == '0')).length + exponent
    let limit := Nat.pow 2 1024 - Nat.pow 2 970
    if places < 309 then true
    else if 309 < places then false
    else n * Nat.pow 10 exponent.toNat < limit * Nat.pow 10 (-exponent).toNat

def float? (cs : List Char) : Option Toml := do
  let unsigned := dropSign cs
  let (mantissa, exponent) := unsigned.span fun c => c != 'e' && c != 'E'
  let (whole, fraction) := mantissa.span (· != '.')
  let (whole, fraction) := (dropUnderscores whole, dropUnderscores (fraction.drop 1))
  let power := dropUnderscores (exponent.drop 1)
  guard (wellSeparated Char.isDigit cs)
  guard ((natural? 10 whole).isSome ∧ (unsigned.head? ≠ some '0' ∨ whole.length = 1))
  guard (mantissa.all (· != '.') ∨ (natural? 10 fraction).isSome)
  let e ← if exponent.isEmpty then some 0 else natural? 10 (dropSign power)
  let e := if power.head? = some '-' then -(e : Int) else e
  return if isFinite (whole ++ fraction) (e - fraction.length) then .float else .unreadable

/-! ## Numbers -/

def number? (cs : List Char) : Option Toml :=
  match cs with
  | '0' :: 'x' :: rest => based? 16 rest
  | '0' :: 'o' :: rest => based? 8 rest
  | '0' :: 'b' :: rest => based? 2 rest
  | _ =>
    let unsigned := dropSign cs
    if unsigned = ['i', 'n', 'f'] || unsigned = ['n', 'a', 'n'] then some .float
    else
      match unsigned, unsigned.dropWhile Char.isDigit with
      | [], _ => none
      | _, [] => decimal? cs
      | _, c :: rest =>
        if (c :: rest).contains ' ' then none
        else if (c :: rest).any fun c => c == '.' || c == 'e' || c == 'E' then float? cs
        else if c == '_' then decimal? cs
        else none

end FlowCheck.Toml
