/-
  FlowCheck.Json.Form — reading and writing typed values.

  A record is an object with named members, or an array of its fields in order; a choice is a
  string naming an alternative without content, or an object with one member. Whatever is wrong,
  the fault that comes first in the text is the one reported:
  - a member's own fault counts where the member stands, a repeated or refused member where it is
    repeated, a missing member at the end of its object;
  - of several missing members, the first that the record names.

  `Reading` collects the fields of a record in any order and keeps the earliest fault.
-/

import FlowCheck.Json.Document
import FlowCheck.SortedMap

namespace FlowCheck.Json

inductive Fault where
  /-- Not JSON, or a value of the wrong type, range or length. -/
  | malformed
  | missingMember (name : String)
  | repeatedMember (name : String)
  | unknownMember (name : String) (known : List String)
  | unknownVariant (name : String) (known : List String)
  /-- Well-formed, but not a value of the type, for the reason given. -/
  | refused (reason : String)
  deriving DecidableEq, Repr, Inhabited

def backquoted (name : String) : String := "`" ++ name ++ "`"

def expectation : List String → String
  | [a] => backquoted a
  | [a, b] => backquoted a ++ " or " ++ backquoted b
  | names => "one of " ++ ", ".intercalate (names.map backquoted)

/-- The message, if the fault has one of its own. The place in the text, ` at line L column C`, which a reader
appends to it, is left out. -/
def Fault.message? : Fault → Option String
  | .malformed => none
  | .missingMember name => some ("missing field " ++ backquoted name)
  | .repeatedMember name => some ("duplicate field " ++ backquoted name)
  | .unknownMember name known =>
    some ("unknown field " ++ backquoted name ++ ", expected " ++ expectation known)
  | .unknownVariant name known =>
    some ("unknown variant " ++ backquoted name ++ ", expected " ++ expectation known)
  | .refused reason => some reason

class Form (α : Type) where
  toJson : α → Json
  ofJson : Json → Except Fault α

export Form (toJson ofJson)

def readText {α : Type} (read : Json → Except Fault α) (text : String) : Except Fault α := do
  let document := Document.ofText text
  let a ← read document.root
  if document.ends then pure a else throw .malformed

/-! ## Simple values -/

instance : Form Bool where
  toJson := .bool
  ofJson
    | .bool b => pure b
    | _ => throw .malformed

instance : Form String where
  toJson := .string
  ofJson
    | .string s => pure s
    | _ => throw .malformed

instance : Form UInt32 where
  toJson n := .number n.toNat
  ofJson
    | .number (.ofNat n) => if n < UInt32.size then pure (.ofNat n) else throw .malformed
    | _ => throw .malformed

instance : Form UInt64 where
  toJson n := .number n.toNat
  ofJson
    | .number (.ofNat n) => if n < UInt64.size then pure (.ofNat n) else throw .malformed
    | _ => throw .malformed

instance : Form Int64 where
  toJson n := .number n.toInt
  ofJson
    | .number n =>
      if Int64.minValue.toInt ≤ n ∧ n ≤ Int64.maxValue.toInt then pure (.ofInt n) else throw .malformed
    | _ => throw .malformed

variable {α β : Type}

instance [Form α] : Form (List α) where
  toJson l := .list (l.map toJson)
  ofJson
    | .array items closed => do
      let l ← items.mapM ofJson
      if closed then pure l else throw .malformed
    | _ => throw .malformed

instance [Form α] : Form (Array α) where
  toJson a := toJson a.toList
  ofJson j := return (← (ofJson j : Except Fault (List α))).toArray

/-- Absence is written `null`. -/
instance [Form α] : Form (Option α) where
  toJson
    | some a => toJson a
    | none => .null
  ofJson
    | .null => pure none
    | j => some <$> ofJson j

/-- A map is an object; of members with one name, the last counts. -/
instance [Form α] : Form (SortedMap String α) where
  toJson m := .record (m.entries.map fun (k, v) => (k, toJson v))
  ofJson
    | .object members closed => do
      let entries ← members.mapM fun (k, v) => return (k, ← ofJson v)
      if closed then pure (.ofList entries) else throw .malformed
    | _ => throw .malformed

/-! ## Records -/

/-- A field read from a record: its value, or a fault and the place where it counts. -/
inductive Reading (α : Type) where
  | value (a : α)
  | fault (position : Nat) (f : Fault)

namespace Reading

/-- Of two faults, the earlier; of two in one place, the first. -/
def both (f : Reading (α → β)) (a : Reading α) : Reading β :=
  match f, a with
  | .value f, .value a => .value (f a)
  | .fault i e, .value _ | .value _, .fault i e => .fault i e
  | .fault i e, .fault j e' => if j < i then .fault j e' else .fault i e

instance : Applicative Reading where
  pure := .value
  seq f a := both f (a ())

/-- The value, unless the record as a whole is at fault before any field is. -/
def finish (r : Reading α) (whole : Option (Nat × Fault)) : Except Fault α :=
  match r, whole with
  | .value a, none => pure a
  | .value _, some (_, e) | .fault _ e, none => throw e
  | .fault i e, some (j, e') => throw (if i < j then e else e')

end Reading

/-- The members of a record in text order, and the fault that a missing one is. -/
structure Members where
  members : List (String × Json)
  missing : String → Fault

namespace Members

variable (m : Members)

/-- Reads the first member called `name`; `absent` says what to make of its absence. -/
def read (name : String) (absent : Reading α) (f : Json → Except Fault α) : Reading α :=
  match m.members.findIdx? (·.1 == name) with
  | none => absent
  | some i =>
    match f ((m.members[i]?.map (·.2)).getD .null) with
    | .ok a => .value a
    | .error e => .fault i e

def required [Form α] (name : String) : Reading α :=
  m.read name (.fault m.members.length (m.missing name)) ofJson

def optional [Form α] (name : String) (default : α) : Reading α := m.read name (.value default) ofJson

end Members

/-- The first member that may not stand where it does. -/
def memberFault? (names : List String) (strict : Bool) (seen : List String) (position : Nat) :
    List (String × Json) → Option (Nat × Fault)
  | [] => none
  | (_, .misnamed _) :: _ => some (position, .malformed)
  | (name, v) :: rest =>
    if name ∈ names then
      if name ∈ seen then some (position, .repeatedMember name)
      else memberFault? names strict (name :: seen) (position + 1) rest
    else if strict then some (position, .unknownMember name names)
    else if v.isWhole then memberFault? names strict seen (position + 1) rest
    else some (position, .malformed)

/-- Reads a record with members called `names`. Others are refused if `strict`, else skipped. -/
def readRecord (names : List String) (fields : Members → Reading α) (strict : Bool := false) :
    Json → Except Fault α
  | .object members closed =>
    let whole := memberFault? names strict [] 0 members
      <|> if closed then none else some (members.length, .malformed)
    (fields { members, missing := .missingMember }).finish whole
  | .array items closed =>
    let whole :=
      if names.length < items.length then some (names.length, .malformed)
      else if closed then none else some (items.length, .malformed)
    (fields { members := names.zip items, missing := fun _ => .malformed }).finish whole
  | _ => throw .malformed

/-! ## Choices -/

abbrev Alternative (α : Type) := Option Json → Except Fault α

def bare (a : α) : Alternative α
  | none | some .null => pure a
  | some _ => throw .malformed

def holding [Form β] (f : β → α) : Alternative α
  | some j => f <$> ofJson j
  | none => throw .malformed

def holdingRecord (names : List String) (fields : Members → Reading α) : Alternative α
  | some j => readRecord names fields false j
  | none => throw .malformed

def readChoice (alternatives : List (String × Alternative α)) : Json → Except Fault α
  | .string name =>
    match alternatives.lookup name with
    | some f => f none
    | none => throw (.unknownVariant name (alternatives.map (·.1)))
  | .object ((_, .misnamed _) :: _) _ => throw .malformed
  | .object ((name, content) :: rest) closed =>
    match alternatives.lookup name with
    | some f => do
      let a ← f (some content)
      if rest.isEmpty && closed then pure a else throw .malformed
    | none => throw (.unknownVariant name (alternatives.map (·.1)))
  | _ => throw .malformed

def tagged [Form α] (name : String) (a : α) : Json := .record [(name, toJson a)]

def readName (all : List α) (name : α → String) : Json → Except Fault α :=
  readChoice (all.map fun a => (name a, bare a))

end FlowCheck.Json
