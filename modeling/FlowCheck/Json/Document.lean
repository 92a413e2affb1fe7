/-
  FlowCheck.Json.Document — from tokens to a value.

  The reader keeps the open containers on a stack and takes one token at a time, so any depth of
  nesting is read alike. When the next token does not fit, or there is none, the open containers
  are given up where they stand.
-/

import FlowCheck.Json.Token

namespace FlowCheck.Json

def memberOf (name : Option String) (v : Json) : String × Json :=
  match name with
  | some name => (name, v)
  | none => ("", .misnamed v)

/-- An open container, what it holds so far (latest first), and for an object the name of the
member whose value comes next. -/
inductive Frame where
  | array (items : List Json)
  | object (members : List (String × Json)) (name : Option String)

inductive Expecting where
  | value
  /-- A value, or the end of an array just opened. -/
  | firstItem
  /-- A member name, or the end of an object just opened. -/
  | firstName (members : List (String × Json))
  | name (members : List (String × Json))
  | colon (members : List (String × Json)) (name : Option String)
  /-- A comma, or the end of the innermost container. -/
  | separator

/-- Gives up the containers on the stack, the innermost of which ends in `inner`. -/
def giveUp (inner : Json) : List Frame → Json
  | [] => inner
  | .array items :: below => giveUp (.array (inner :: items).reverse false) below
  | .object members name :: below => giveUp (.object (memberOf name inner :: members).reverse false) below

def giveUpBetween (stack : List Frame) : Json :=
  match stack with
  | [] => .broken
  | .array items :: below => giveUp (.array items.reverse false) below
  | .object members _ :: below => giveUp (.object members.reverse false) below

mutual

/-- Reads on, with `stack` open and something expected. Answers the value and the unread tokens. -/
def read (expecting : Expecting) (stack : List Frame) (input : List Token) : Json × List Token :=
  match input with
  | [] =>
    match expecting with
    | .value => (giveUp .broken stack, [])
    | .firstItem | .separator => (giveUpBetween stack, [])
    | .firstName members | .name members => (giveUp (.object members.reverse false) stack, [])
    | .colon members name => (giveUp (.object (memberOf name .broken :: members).reverse false) stack, [])
  | t :: rest =>
    match expecting, t with
    | .value, .atom v | .firstItem, .atom v => place v stack rest
    | .value, .garbled | .firstItem, .garbled => place .alien stack rest
    | .value, .openArray | .firstItem, .openArray => read .firstItem (.array [] :: stack) rest
    | .value, .openObject | .firstItem, .openObject => read (.firstName []) stack rest
    | .value, _ => (giveUp .broken stack, t :: rest)
    | .firstItem, .closeArray =>
      match stack with
      | .array items :: below => place (.list items.reverse) below rest
      | _ => (giveUpBetween stack, t :: rest)
    | .firstItem, _ => (giveUpBetween stack, t :: rest)
    | .firstName members, .closeObject => place (.record members.reverse) stack rest
    | .firstName members, .atom (.string name) | .name members, .atom (.string name) =>
      read (.colon members (some name)) stack rest
    | .firstName members, .garbled | .name members, .garbled => read (.colon members none) stack rest
    | .firstName members, _ | .name members, _ =>
      (giveUp (.object members.reverse false) stack, t :: rest)
    | .colon members name, .colon => read .value (.object members name :: stack) rest
    | .colon members name, _ =>
      (giveUp (.object (memberOf name .broken :: members).reverse false) stack, t :: rest)
    | .separator, .comma =>
      match stack with
      | .array _ :: _ => read .value stack rest
      | .object members _ :: below => read (.name members) below rest
      | [] => (.broken, t :: rest)
    | .separator, .closeArray =>
      match stack with
      | .array items :: below => place (.list items.reverse) below rest
      | _ => (giveUpBetween stack, t :: rest)
    | .separator, .closeObject =>
      match stack with
      | .object members _ :: below => place (.record members.reverse) below rest
      | _ => (giveUpBetween stack, t :: rest)
    | .separator, _ => (giveUpBetween stack, t :: rest)
termination_by (input.length, 0)

def place (v : Json) (stack : List Frame) (input : List Token) : Json × List Token :=
  match stack with
  | [] => (v, input)
  | .array items :: below => read .separator (.array (v :: items) :: below) input
  | .object members name :: below => read .separator (.object (memberOf name v :: members) name :: below) input
termination_by (input.length, 1)

end

/-- The value a text starts with, and whether nothing but blanks follows. -/
structure Document where
  root : Json
  ends : Bool

def Document.ofText (text : String) : Document :=
  let (tokens, complete) := tokens text
  let (root, rest) := read .value [] tokens
  { root, ends := complete && rest.isEmpty }

end FlowCheck.Json
