/-
  FlowCheck.Folder — running the checks on files.

  A folder holds text files, possibly in folders of their own. Paths are relative to it and may use
  `.` and `..`. What is around the folder is a parameter (`Site`): which paths are too long, and whether
  a file can be written right beside the folder, where it is not seen again. A path that leaves the
  folder further leads nowhere.

  Reports are written one after the other: if the second cannot be written, the first is there all the
  same. No other file changes (`find?_writeReports`).
-/

import FlowCheck.Run

namespace FlowCheck

/-- Text files by their path. -/
structure Folder where
  files : SortedMap String String
  deriving DecidableEq

/-- What is around a folder, as far as a path can tell. -/
structure Site where
  /-- The most bytes a path may have from the folder on. -/
  maxPathSize : Nat
  /-- Files can be written right beside the folder. -/
  hasRoomBeside : Bool

/-- Around a folder of temporary files: the system takes 4095 bytes, and 16 of them lead to the folder. -/
def Site.temporary : Site := { maxPathSize := 4079, hasRoomBeside := true }

namespace Folder

variable (d : Folder) (site : Site)

/-- Whether a path, as a list of names, is that of a folder. -/
def isFolder (path : List String) : Bool :=
  path.isEmpty || d.files.keys.any fun file => ("/".intercalate path ++ "/").isPrefixOf file

inductive Destination where
  /-- A file of the folder, be it there or not. -/
  | file (path : String)
  | beside
  deriving DecidableEq

/-- May be the name of a file. -/
def isFileName (name : String) : Bool :=
  name != "" && name != "." && name != ".." && name.utf8ByteSize ≤ 255 && !name.contains '\x00'

/-- Follows the names of a path that has left the folder by one step. -/
def followBeside : List String → Option Destination
  | [] => none
  | [name] => if isFileName name && site.hasRoomBeside then some .beside else none
  | name :: rest => if name = "" ∨ name = "." then followBeside rest else none

/-- Follows the names of a path from a folder on; the last one names the file. -/
def follow (here : List String) : List String → Option Destination
  | [] => none
  | [name] =>
    if isFileName name && !d.isFolder (here ++ [name]) then
      some (.file ("/".intercalate (here ++ [name])))
    else none
  | name :: rest =>
    if name = "" ∨ name = "." then follow here rest
    else if name = ".." then if here.isEmpty then followBeside site rest else follow here.dropLast rest
    else if d.isFolder (here ++ [name]) then follow (here ++ [name]) rest
    else none

/-- Where a path leads, if it can be the path of a file. -/
def resolve? (path : String) : Option Destination :=
  if path.startsWith "/" || site.maxPathSize < path.utf8ByteSize then none
  else d.follow site [] (path.splitOn "/")

def read? (path : String) : Except RunError String :=
  match d.resolve? site path with
  | some (.file file) =>
    match d.files.find? file with
    | some text => .ok text
    | none => .error .inaccessibleFile
  | _ => .error .inaccessibleFile

def write? (path text : String) : Except RunError Folder :=
  match d.resolve? site path with
  | some (.file file) => .ok ⟨d.files.insert file text⟩
  | some .beside => .ok d
  | none => .error .inaccessibleFile

/-- Writes the reports of a run, each with a line break at its end. Answers the folder as far as
that went, and the error if there was one. -/
def writeReports (o : Options) (outcome : RunOutcome) (site : Site := .temporary) : Folder × Option RunError :=
  match d.write? site o.constants.report (outcome.constantsText ++ "\n") with
  | .error e => (d, some e)
  | .ok d =>
    match d.write? site o.purity.report (outcome.purityText ++ "\n") with
    | .error e => (d, some e)
    | .ok d => (d, none)

/-- Checks the program in one file under the configuration in another, if there is one. -/
def check (program : String) (configuration : Option String) (site : Site := .temporary) :
    Except RunError (Options × RunOutcome) := do
  let text ← configuration.mapM (d.read? site)
  let o ← Options.ofText text
  return (o, ← runText (← d.read? site program) o)

/-! ## What a run changes -/

variable {d site}

theorem find?_write? {d' : Folder} {path text : String} (h : d.write? site path text = .ok d') (file : String) :
    d'.files.find? file = if d.resolve? site path = some (.file file) then some text else d.files.find? file := by
  unfold write? at h
  split at h
  · rename_i written resolved
    cases h
    rw [resolved, SortedMap.find?_insert]
    simp
  · rename_i resolved
    cases h
    simp [resolved]
  · cases h

/-- A run leaves every file as it was, or as one of its two reports. Where it fails, only the report on
constants may have been written. -/
theorem find?_writeReports (o : Options) (outcome : RunOutcome) (file : String) :
    let (d', failure) := d.writeReports o outcome site
    d'.files.find? file = d.files.find? file ∨ d'.files.find? file = some (outcome.constantsText ++ "\n") ∨
      failure = none ∧ d'.files.find? file = some (outcome.purityText ++ "\n") := by
  unfold writeReports
  cases first : d.write? site o.constants.report (outcome.constantsText ++ "\n") with
  | error e => exact .inl rfl
  | ok d₁ =>
    have written := find?_write? first file
    cases second : d₁.write? site o.purity.report (outcome.purityText ++ "\n") with
    | error e =>
      simp only [second, written]
      split
      · exact .inr (.inl rfl)
      · exact .inl rfl
    | ok d₂ =>
      simp only [second, find?_write? second file, written]
      split
      · exact .inr (.inr ⟨trivial, rfl⟩)
      · split
        · exact .inr (.inl rfl)
        · exact .inl rfl

end Folder

end FlowCheck
