import IlsCompiler.Files.FileSystem
import IlsCompiler.Diagnostic.Failure
import IlsCompiler.Project.Config
import IlsCompiler.Text.Quoted

namespace IlsCompiler

/-!
# Source files

Paths that name sources stand for files: a file for itself, a directory for all
sources below it in the order of their paths. A file that comes up twice counts once.
-/

namespace Sources

/-- The extension of source files. -/
def extension : String := ".ils"

/-- Why paths do not stand for source files. -/
inductive Fault where
  | unreachable (fault : PathFault)
  | notSource (path : String)
  | noSources (directory : String)
deriving DecidableEq, Repr

/-- How a fault is told. -/
def Fault.message : Fault → String
  | .unreachable fault => fault.message
  | .notSource path => path ++ " is not a " ++ extension ++ " file"
  | .noSources directory => "no " ++ extension ++ " files in " ++ directory

/-- The paths of the sources below a directory, in order. -/
def below (system : FileSystem) (directory : String) (place : Place) : List Path :=
  let paths := (system.filesBelow place).map fun (names, _) =>
    Path.join directory ("/".intercalate names)
  (paths.filter fun path => extension.toList.isSuffixOf path.text.toList).mergeSort
    fun left right => !(right.text < left.text)

/-- The files that one path stands for. -/
def ofPath (system : FileSystem) (path : String) : Except Fault (List Path) :=
  match system.status path with
  | .error fault => .error (.unreachable fault)
  | .ok (_, .file _) =>
      if Path.extension path = extension then
        .ok [Path.parse path]
      else
        .error (.notSource path)
  | .ok (place, .directory) =>
      match below system path place with
      | [] => .error (.noSources path)
      | files => .ok files

/-- Values without those that came before. -/
def firstOnly (seen : List Path) : List Path → List Path
  | [] => []
  | path :: rest =>
      if path ∈ seen then
        firstOnly seen rest
      else
        path :: firstOnly (path :: seen) rest

/-- The files that paths stand for, each once. -/
def expand (system : FileSystem) (paths : List String) : Except Fault (List Path) :=
  match paths.mapM (ofPath system) with
  | .error fault => .error fault
  | .ok files => .ok (firstOnly [] files.flatten)

end Sources

/-!
## Manifests

The manifest of a project stands in its topmost directory. It is looked for in a
directory and then in those above it.
-/

/-- A manifest that was found. -/
structure Manifest where
  path : Path
  config : ProjectConfig
deriving DecidableEq, Repr, Inhabited

namespace Manifest

/-- The name of manifest files. -/
def fileName : String := "ils.toml"

/-- The directory of the project. -/
def root (manifest : Manifest) : Path :=
  manifest.path.parent

/-- The places where a manifest is looked for: in a directory and those above it. -/
def candidates (directory : Path) : List Path :=
  (List.range (directory.names.length + 1)).reverse.map fun count =>
    { directory with names := directory.names.take count }.extend fileName

/-- The first of some paths at which something stands. -/
def firstPresent (system : FileSystem) : List Path → Except Failure (Option Path)
  | [] => .ok none
  | path :: rest =>
      match system.status path.text with
      | .ok _ => .ok (some path)
      | .error fault =>
          if fault.reason = .missing then
            firstPresent system rest
          else
            .error (.plain (Bytes.ofString
              ("failed to stat " ++ Text.quote path.text ++ ": " ++ fault.message)))

/-- The path of the manifest for a directory. -/
def find (system : FileSystem) (start : String) : Except Failure (Option Path) :=
  let working := "/" ++ "/".intercalate system.directory
  firstPresent system (candidates (Path.absolute working start))

/-- A problem with a manifest. -/
def failure (path : Path) (message : String) : Failure :=
  (Failure.report .badManifest 0 message).inFile path.text

/-- Read the manifest at a path. -/
def read (system : FileSystem) (path : Path) : Except Failure Manifest :=
  let config : Except ManifestFault ProjectConfig :=
    match system.read path.text with
    | .error _ => .error .unreadable
    | .ok contents => ProjectConfig.ofContents contents
  match config with
  | .error fault => .error (failure path fault.message)
  | .ok settings => .ok { path := path, config := settings }

/-- The manifest for a directory, if there is one. -/
def load (system : FileSystem) (start : String) : Except Failure (Option Manifest) :=
  match find system start with
  | .error failure => .error failure
  | .ok none => .ok none
  | .ok (some path) => (read system path).map some

/-- The source files of the project. -/
def sourceFiles (system : FileSystem) (manifest : Manifest) : Except Failure (List Path) :=
  match Sources.expand system
      (manifest.config.sources.map fun source => (manifest.root.extend source).text) with
  | .ok files => .ok files
  | .error fault => .error (failure manifest.path ("[build].sources: " ++ fault.message))

/-- The directory that the project is built into. -/
def outDir (manifest : Manifest) : String :=
  if Path.startsAtRoot manifest.config.outDir then
    manifest.config.outDir
  else
    (manifest.root.extend manifest.config.outDir).text

end Manifest

end IlsCompiler
