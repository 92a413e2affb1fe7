/-
  FlowCheck.Toml.Section — tables while a document is read.

  A table may be mentioned before it is opened, and it matters how it came to be: each table is
  opened by a header once at most; a table made by dotted keys is extended by dotted keys only; and
  a table written inline, like any other value, is never extended.
-/

import FlowCheck.Toml.Value

namespace FlowCheck.Toml

inductive Origin where
  /-- A header opened it. -/
  | header
  /-- A header opened a table inside it. -/
  | implied
  /-- Dotted keys made it. -/
  | dotted
  deriving DecidableEq

inductive Entry where
  | value (v : Toml)
  | table (origin : Origin) (entries : List (String × Entry))
  /-- An array of tables; the last one comes first. -/
  | tables (elements : List (List (String × Entry)))
  deriving Inhabited

abbrev Section := List (String × Entry)

namespace Section

/-- Binds a key, in the place it has if it was bound before. -/
def bind (k : String) (e : Entry) : Section → Section
  | [] => [(k, e)]
  | (k', e') :: rest => if k = k' then (k, e) :: rest else (k', e') :: bind k e rest

/-- Changes the table at the end of a path of keys. Missing tables are made on the way, with the
origin `made`; dotted keys do not pass through a table that a header opened. -/
def within (made : Origin) (f : Origin → Section → Option Section) (origin : Origin) :
    List String → Section → Option Section
  | [], s => f origin s
  | k :: path, s =>
    match s.lookup k with
    | none => do return s.bind k (.table made (← within made f made path []))
    | some (.value _) => none
    | some (.table o t) =>
      if made = .dotted ∧ o = .header then none
      else do return s.bind k (.table o (← within made f o path t))
    | some (.tables (t :: earlier)) => do
      return s.bind k (.tables ((← within made f .header path t) :: earlier))
    | some (.tables []) => none

def openTable (k : String) (_ : Origin) (s : Section) : Option Section :=
  match s.lookup k with
  | none => some (s.bind k (.table .header []))
  | some (.table .implied t) => some (s.bind k (.table .header t))
  | some _ => none

def openElement (k : String) (_ : Origin) (s : Section) : Option Section :=
  match s.lookup k with
  | none => some (s.bind k (.tables [[]]))
  | some (.tables elements) => some (s.bind k (.tables ([] :: elements)))
  | some _ => none

/-- Binds a new key to a value, in a table made by dotted keys if the key is one. -/
def define (path : List String) (k : String) (v : Toml) : Section → Option Section :=
  within .dotted
    (fun origin s =>
      if (s.lookup k).isSome || (!path.isEmpty && origin != .dotted) then none
      else some (s.bind k (.value v)))
    .header path

def current (f : Section → Option Section) : List String → Section → Option Section
  | [], s => f s
  | k :: path, s =>
    match s.lookup k with
    | some (.table o t) => do return s.bind k (.table o (← current f path t))
    | some (.tables (t :: earlier)) => do return s.bind k (.tables ((← current f path t) :: earlier))
    | _ => none

end Section

mutual

def Entry.toToml : Entry → Toml
  | .value v => v
  | .table _ entries => .table (Section.toEntries entries)
  | .tables elements => .array (Section.toTables elements).reverse

def Section.toEntries : List (String × Entry) → List (String × Toml)
  | [] => []
  | (k, e) :: rest => (k, e.toToml) :: Section.toEntries rest

def Section.toTables : List (List (String × Entry)) → List Toml
  | [] => []
  | t :: rest => .table (Section.toEntries t) :: Section.toTables rest

end

end FlowCheck.Toml
