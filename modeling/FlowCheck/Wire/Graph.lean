/-
  FlowCheck.Wire.Graph — the JSON forms of graphs and what they are made of.

  A graph is written as its draft and checked when it is read: a draft with a defect is refused
  with the defect's message.
-/

import FlowCheck.Graph.Flowgraph
import FlowCheck.Json.Form

namespace FlowCheck

open Json

instance : Form Location where
  toJson l := .record
    [("start", toJson l.start), ("end", toJson l.stop), ("line", toJson l.line), ("column", toJson l.column)]
  ofJson := readRecord ["start", "end", "line", "column"] fun m =>
    Location.mk <$> m.optional "start" 0 <*> m.optional "end" 0 <*> m.optional "line" 0
      <*> m.optional "column" 0

instance : Form NodeId where
  toJson n := toJson n.number
  ofJson j := NodeId.mk <$> ofJson j

instance : Form BlockId where
  toJson b := toJson b.number
  ofJson j := BlockId.mk <$> ofJson j

instance : Form Literal where
  toJson
    | .int v => tagged "int" v
    | .text s => tagged "text" s
    | .bool b => tagged "bool" b
    | .null => .string "null"
  ofJson := readChoice
    [("int", holding Literal.int), ("text", holding Literal.text), ("bool", holding Literal.bool),
      ("null", bare .null)]

instance : Form Place where
  toJson
    | .local name => tagged "local" name
    | .field owner name => .record [("field", .record [("owner", toJson owner), ("name", toJson name)])]
    | .expr text => tagged "expr" text
  ofJson := readChoice
    [("local", holding Place.local),
      ("field", holdingRecord ["owner", "name"] fun m => Place.field <$> m.required "owner" <*> m.required "name"),
      ("expr", holding Place.expr)]

def BinaryOp.all : List BinaryOp :=
  [.add, .sub, .mul, .div, .rem, .eq, .ne, .lt, .le, .gt, .ge, .and, .or, .bitAnd, .bitOr, .bitXor, .shl, .shr,
    .concat]

def BinaryOp.name : BinaryOp → String
  | .add => "add"
  | .sub => "sub"
  | .mul => "mul"
  | .div => "div"
  | .rem => "rem"
  | .eq => "eq"
  | .ne => "ne"
  | .lt => "lt"
  | .le => "le"
  | .gt => "gt"
  | .ge => "ge"
  | .and => "and"
  | .or => "or"
  | .bitAnd => "bit_and"
  | .bitOr => "bit_or"
  | .bitXor => "bit_xor"
  | .shl => "shl"
  | .shr => "shr"
  | .concat => "concat"

instance : Form BinaryOp where
  toJson op := .string op.name
  ofJson := readName BinaryOp.all BinaryOp.name

def UnaryOp.all : List UnaryOp := [.neg, .not, .bitNot]

def UnaryOp.name : UnaryOp → String
  | .neg => "neg"
  | .not => "not"
  | .bitNot => "bit_not"

instance : Form UnaryOp where
  toJson op := .string op.name
  ofJson := readName UnaryOp.all UnaryOp.name

namespace Operation

def name : Operation → String
  | .literal _ => "literal"
  | .read _ => "read"
  | .assign .. => "assign"
  | .loadElement .. => "array_load"
  | .storeElement .. => "array_store"
  | .binary .. => "binary"
  | .unary .. => "unary"
  | .call .. => "call"
  | .allocate .. => "new"
  | .caseTest .. => "case"
  | .handler .. => "catch"
  | .leave _ => "return"
  | .raise _ => "throw"

def content : Operation → Json
  | .literal v => toJson v
  | .read p => toJson p
  | .assign target value => .record [("target", toJson target), ("value", toJson value)]
  | .loadElement base index => .record [("array", toJson base), ("index", toJson index)]
  | .storeElement base index value =>
    .record [("array", toJson base), ("index", toJson index), ("value", toJson value)]
  | .binary op lhs rhs => .record [("op", toJson op), ("lhs", toJson lhs), ("rhs", toJson rhs)]
  | .unary op operand => .record [("op", toJson op), ("operand", toJson operand)]
  | .call callee receiver args =>
    .record [("callee", toJson callee), ("receiver", toJson receiver), ("args", toJson args)]
  | .allocate type args => .record [("class", toJson type), ("args", toJson args)]
  | .caseTest scrutinee label => .record [("scrutinee", toJson scrutinee), ("label", toJson label)]
  | .handler parameter exception =>
    .record [("parameter", toJson parameter), ("exception", toJson exception)]
  | .leave value => .record [("value", toJson value)]
  | .raise value => .record [("value", toJson value)]

def alternatives : List (String × Alternative Operation) :=
  [("literal", holding literal),
    ("read", holding Operation.read),
    ("assign", holdingRecord ["target", "value"] fun m => assign <$> m.required "target" <*> m.required "value"),
    ("array_load", holdingRecord ["array", "index"] fun m =>
      loadElement <$> m.required "array" <*> m.required "index"),
    ("array_store", holdingRecord ["array", "index", "value"] fun m =>
      storeElement <$> m.required "array" <*> m.required "index" <*> m.required "value"),
    ("binary", holdingRecord ["op", "lhs", "rhs"] fun m =>
      binary <$> m.required "op" <*> m.required "lhs" <*> m.required "rhs"),
    ("unary", holdingRecord ["op", "operand"] fun m => unary <$> m.required "op" <*> m.required "operand"),
    ("call", holdingRecord ["callee", "receiver", "args"] fun m =>
      call <$> m.required "callee" <*> m.optional "receiver" none <*> m.optional "args" []),
    ("new", holdingRecord ["class", "args"] fun m => allocate <$> m.required "class" <*> m.optional "args" []),
    ("case", holdingRecord ["scrutinee", "label"] fun m =>
      caseTest <$> m.required "scrutinee" <*> m.required "label"),
    ("catch", holdingRecord ["parameter", "exception"] fun m =>
      handler <$> m.required "parameter" <*> m.optional "exception" none),
    ("return", holdingRecord ["value"] fun m => leave <$> m.optional "value" none),
    ("throw", holdingRecord ["value"] fun m => raise <$> m.required "value")]

end Operation

instance : Form Operation where
  toJson op := .record [(op.name, op.content)]
  ofJson := readChoice Operation.alternatives

instance : Form Node where
  toJson n := .record [("id", toJson n.id), ("kind", toJson n.operation), ("span", toJson n.location)]
  ofJson := readRecord ["id", "kind", "span"] fun m =>
    Node.mk <$> m.required "id" <*> m.required "kind" <*> m.optional "span" .unknown

def BlockRole.all : List BlockRole := [.entry, .regular, .exit, .exceptionalExit]

def BlockRole.name : BlockRole → String
  | .entry => "entry"
  | .regular => "regular"
  | .exit => "exit"
  | .exceptionalExit => "exceptional_exit"

instance : Form BlockRole where
  toJson r := .string r.name
  ofJson := readName BlockRole.all BlockRole.name

instance : Form Block where
  toJson b := .record [("id", toJson b.id), ("kind", toJson b.role), ("nodes", toJson b.nodes)]
  ofJson := readRecord ["id", "kind", "nodes"] fun m =>
    Block.mk <$> m.required "id" <*> m.optional "kind" .regular <*> m.optional "nodes" []

def EdgeKind.all : List EdgeKind := [.normal, .whenTrue, .whenFalse, .exceptional]

def EdgeKind.name : EdgeKind → String
  | .normal => "normal"
  | .whenTrue => "true_branch"
  | .whenFalse => "false_branch"
  | .exceptional => "exceptional"

instance : Form EdgeKind where
  toJson k := .string k.name
  ofJson := readName EdgeKind.all EdgeKind.name

instance : Form Edge where
  toJson e := .record [("from", toJson e.source), ("to", toJson e.target), ("kind", toJson e.kind)]
  ofJson := readRecord ["from", "to", "kind"] fun m =>
    Edge.mk <$> m.required "from" <*> m.required "to" <*> m.optional "kind" .normal

instance : Form Draft where
  toJson d := .record
    [("name", toJson d.name), ("entry", toJson d.entry), ("blocks", toJson d.blocks), ("nodes", toJson d.nodes),
      ("edges", toJson d.edges)]
  ofJson := readRecord ["name", "entry", "blocks", "nodes", "edges"] fun m =>
    Draft.mk <$> m.optional "name" "" <*> m.optional "entry" ⟨0⟩ <*> m.required "blocks"
      <*> m.optional "nodes" #[] <*> m.optional "edges" []

instance : Form Flowgraph where
  toJson g := toJson g.toDraft
  ofJson j := do
    match Flowgraph.ofDraft (← ofJson j) with
    | .ok g => pure g
    | .error d => throw (.refused d.message)

end FlowCheck
