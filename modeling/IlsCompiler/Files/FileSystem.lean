import IlsCompiler.Files.Path
import IlsCompiler.Text.Bytes

namespace IlsCompiler

/-!
# File systems

A tree of directories and files. A path is followed step by step: every step but the
last has to lead to a directory.
-/

/-- Where something stands: the names on the way from the root. -/
abbrev Place := List String

/-- What can stand at a place. -/
inductive Entry where
  | file (contents : Bytes)
  | directory
deriving DecidableEq, Repr

/-- Why something cannot be done with a path. -/
inductive PathReason where
  | missing
  | notDirectory
  | isDirectory
  | invalid
deriving DecidableEq, Repr

namespace PathReason

/-- How a reason is told. -/
def message : PathReason → String
  | .missing => "no such file or directory"
  | .notDirectory => "not a directory"
  | .isDirectory => "is a directory"
  | .invalid => "invalid argument"

end PathReason

/-- What was tried with a path, and why it failed. -/
structure PathFault where
  action : String
  path : String
  reason : PathReason
deriving DecidableEq, Repr

namespace PathFault

/-- How a fault is told. -/
def message (fault : PathFault) : String :=
  fault.action ++ " " ++ fault.path ++ ": " ++ fault.reason.message

end PathFault

/-- Everything that stands below the root, and the directory that paths start from. -/
structure FileSystem where
  entries : List (Place × Entry)
  directory : Place
deriving DecidableEq, Repr, Inhabited

namespace FileSystem

/-- What stands at a place. -/
def entry? (system : FileSystem) (place : Place) : Option Entry :=
  if place.isEmpty then
    some .directory
  else
    system.entries.lookup place

/-- Whether a directory stands at a place. -/
def isDirectory (system : FileSystem) (place : Place) : Bool :=
  system.entry? place == some .directory

/-- Put something at a place. -/
def set (system : FileSystem) (place : Place) (entry : Entry) : FileSystem :=
  { system with
    entries := (system.entries.filter fun pair => pair.1 != place) ++ [(place, entry)] }

/-- Follow steps from a place. -/
def follow (system : FileSystem) : Place → List String → Except PathReason Place
  | place, [] => .ok place
  | place, name :: rest =>
      if system.isDirectory place then
        if name = "" || name = Path.here then
          system.follow place rest
        else if name = Path.up then
          system.follow place.dropLast rest
        else if (system.entry? (place ++ [name])).isSome then
          system.follow (place ++ [name]) rest
        else
          .error .missing
      else
        .error .notDirectory

/-- Where the steps of a path start. -/
def origin (system : FileSystem) (path : String) : Place :=
  if Path.startsAtRoot path then
    []
  else
    system.directory

/-- The place that a path leads to. -/
def locate (system : FileSystem) (path : String) : Except PathReason Place :=
  if path = "" then
    .error .missing
  else if path.toList.contains (Char.ofNat 0) then
    .error .invalid
  else
    system.follow (system.origin path) (Path.steps path)

/-- The place of a path and what stands there. -/
def inspect (system : FileSystem) (action path : String) : Except PathFault (Place × Entry) :=
  match system.locate path with
  | .error reason => .error { action := action, path := path, reason := reason }
  | .ok place =>
      match system.entry? place with
      | some entry => .ok (place, entry)
      | none => .error { action := action, path := path, reason := .missing }

/-- The place of a path and what stands there, or why there is nothing. -/
def status (system : FileSystem) (path : String) : Except PathFault (Place × Entry) :=
  system.inspect "stat" path

/-- The contents of a file. -/
def read (system : FileSystem) (path : String) : Except PathFault Bytes :=
  match system.inspect "open" path with
  | .error fault => .error fault
  | .ok (_, .file contents) => .ok contents
  | .ok (_, .directory) => .error { action := "read", path := path, reason := .isDirectory }

/-- Where a file with a path is or would be written. -/
def target (system : FileSystem) (path : String) : Except PathReason Place :=
  match system.locate path with
  | .ok place =>
      if system.isDirectory place then
        .error .isDirectory
      else
        .ok place
  | .error .missing =>
      match (Path.steps path).getLast? with
      | none => .error .missing
      | some name =>
          match system.follow (system.origin path) (Path.steps path).dropLast with
          | .error reason => .error reason
          | .ok parent =>
              if name = "" then
                .error (if path = "" then .missing else .isDirectory)
              else if system.isDirectory parent then
                .ok (parent ++ [name])
              else
                .error .notDirectory
  | .error reason => .error reason

/-- Write a file in place of any that is there. -/
def write (system : FileSystem) (path : String) (contents : Bytes) :
    Except PathFault FileSystem :=
  match system.target path with
  | .error reason => .error { action := "open", path := path, reason := reason }
  | .ok place => .ok (system.set place (.file contents))

/-- Make the directories behind a path one by one; a file in the way stops this. -/
def makeBehind (system : FileSystem) (path : Path) : List String → Except PathFault FileSystem
  | [] => .ok system
  | name :: rest =>
      let next : Path := { path with names := path.names ++ [name] }
      match system.target next.text with
      | .error .isDirectory => system.makeBehind next rest
      | .error reason => .error { action := "mkdir", path := next.text, reason := reason }
      | .ok place =>
          if (system.entry? place).isSome then
            .error { action := "mkdir", path := next.text, reason := .notDirectory }
          else
            (system.set place .directory).makeBehind next rest

/-- Make a directory and those above it, as far as they are missing. -/
def makeDirectories (system : FileSystem) (path : Path) : Except PathFault FileSystem :=
  system.makeBehind { path with names := [] } path.names

/-- The files below a place, each with the names that lead there. -/
def filesBelow (system : FileSystem) (place : Place) : List (List String × Bytes) :=
  system.entries.filterMap fun (location, entry) =>
    match entry with
    | .directory => none
    | .file contents =>
        if place.isPrefixOf location then
          some (location.drop place.length, contents)
        else
          none

/-- A directory at a place, with those above it. -/
def withDirectory (system : FileSystem) (place : Place) : FileSystem :=
  ((List.range (place.length + 1)).map place.take).foldl
    (fun current directory =>
      if (current.entry? directory).isSome then current else current.set directory .directory)
    system

/-- A file at a place, with the directories above it. -/
def withFile (system : FileSystem) (place : Place) (contents : Bytes) : FileSystem :=
  (system.withDirectory place.dropLast).set place (.file contents)

/-- A file system that holds nothing but a working directory. -/
def empty (directory : Place) : FileSystem :=
  withDirectory { entries := [], directory := directory } directory

end FileSystem

end IlsCompiler
