import IlsCompiler.Build.Output
import IlsCompiler.Compilation.Cached
import IlsCompiler.Files.FileSystem
import IlsCompiler.Timing.StageTimings

namespace IlsCompiler

/-!
# Builds

A build compiles its files in order and then writes what it made of those without
problems. Problems in one file do not stop the others; a cancellation or a failure
that is no diagnostic stops the whole run.
-/

/-- What a build is asked for. -/
structure BuildRequest where
  files : List String
  options : CompileOptions := {}
  /-- Where the ways of sources into the output directory start. -/
  baseDir : String := ""
  outDir : String := ""
deriving DecidableEq, Repr, Inhabited

/-- What a build works on. -/
structure Workspace where
  files : FileSystem
  cache : Option CacheStore := none
  tracer : Trace.Tracer := .silent

/-- What was written for a source; a listing without a path was not written. -/
structure Artifact where
  source : String
  assembly : String
  listing : String := ""
deriving DecidableEq, Repr, Inhabited

/-- A finished build: the compilations of the files it came to, and how many others there are. -/
structure BuildRun where
  runs : List Compilation := []
  unreached : Nat := 0
  events : List BuildEvent := []
  timings : StageTimings := .empty
  artifacts : List Artifact := []
  fatal : Option Failure := none
  workspace : Workspace

namespace BuildRun

/-- The outcomes of the files that the build came to. -/
def reached (run : BuildRun) : List Compiled :=
  run.runs.map fun compilation => compilation.compiled

/-- The outcome of every file; one that the build never came to has none. -/
def outcomes (run : BuildRun) : List (Option Compiled) :=
  run.reached.map some ++ List.replicate run.unreached none

/-- How many files have problems. -/
def failures (run : BuildRun) : Nat :=
  (run.reached.filter Compiled.failed).length

/-- A build that stops before it began. -/
def refused (workspace : Workspace) (message : String) : BuildRun :=
  { fatal := some (.plain message), workspace := workspace }

/-- Compile one file; one that cannot be read has that as its only problem. -/
def compileFile (options : CompileOptions) (workspace : Workspace) (path : String) :
    Compilation × Workspace :=
  match workspace.files.read path with
  | .error fault => ({ compiled := .unreadable path options fault.message }, workspace)
  | .ok source =>
      let compilation := CachedCompilation.ofSource path source options .never workspace.cache
      (compilation.run,
        { workspace with
          cache := compilation.store
          tracer := compilation.trace 0 workspace.tracer })

/-- Compile files in order up to the first fatal failure. -/
def compileFiles (options : CompileOptions) :
    Workspace → List String → List Compilation × Workspace
  | workspace, [] => ([], workspace)
  | workspace, path :: rest =>
      let (run, after) := compileFile options workspace path
      if run.fatal.isSome then
        ([run], after)
      else
        let (runs, last) := compileFiles options after rest
        (run :: runs, last)

/-- The stages that a compilation went through. -/
def stages (compilation : Compilation) : List Stage :=
  compilation.phases.map fun phase => Stage.ofPhase phase.1

/-- The events of the stages that a compilation went through. -/
def stageEvents (compilation : Compilation) : List BuildEvent :=
  (stages compilation).flatMap (BuildEvent.through compilation.compiled.path)

/-- The stage that a problem is told for: the last one that was begun. -/
def lastStage (compilation : Compilation) : Stage :=
  ((stages compilation).getLast?).getD .parse

/-- The event that ends a file which is not written. -/
def outcomeEvents (compilation : Compilation) : List BuildEvent :=
  let compiled := compilation.compiled
  if compiled.cached then
    [{ file := compiled.path, stage := .emit, status := .cached }]
  else if compiled.failed then
    [{ file := compiled.path, stage := lastStage compilation, status := .error,
       failure := compiled.bag.firstError?.map Failure.diagnosed }]
  else
    []

/-- Compile the files of a request, or none of them if it was cancelled in advance. -/
def compile (request : BuildRequest) (cancelled : Bool) (workspace : Workspace) : BuildRun :=
  if request.files.isEmpty then
    refused workspace "no source files to compile"
  else
    let (runs, after) :=
      if cancelled then
        ([], workspace)
      else
        compileFiles request.options workspace request.files
    let fatal :=
      if cancelled then
        some Failure.cancelled
      else
        runs.findSome? fun run => run.fatal
    { runs := runs
      unreached := request.files.length - runs.length
      events :=
        request.files.map BuildEvent.waiting ++ runs.flatMap stageEvents ++
          match fatal with
          | some failure =>
              [{ file := "", stage := .emit, status := .error, failure := some failure }]
          | none => runs.flatMap outcomeEvents
      timings := (runs.flatMap stages).foldl (fun timings stage => timings.add stage 0) .empty
      fatal := fatal
      workspace := after }

/-- A failure to write a file. -/
def writeFailure (path : String) (fault : PathFault) : Failure :=
  .plain (Bytes.ofString ("failed to write " ++ Text.quote path ++ ": " ++ fault.message))

/-- Write what was made of a source; what was written before a failure stays. -/
def writeArtifact (system : FileSystem) (compiled : Compiled) (place : Path)
    (keepListing : Bool) : FileSystem × Except Failure Artifact :=
  match system.makeDirectories place.parent with
  | .error fault =>
      (system,
        .error (.plain (Bytes.ofString ("failed to create output dir: " ++ fault.message))))
  | .ok prepared =>
      match prepared.write place.text compiled.assembly with
      | .error fault => (prepared, .error (writeFailure place.text fault))
      | .ok written =>
          if keepListing then
            let listing := Output.listingText place.text
            match written.write listing compiled.listing with
            | .error fault => (written, .error (writeFailure listing fault))
            | .ok complete =>
                (complete,
                  .ok { source := compiled.path, assembly := place.text, listing := listing })
          else
            (written, .ok { source := compiled.path, assembly := place.text })

/-- Write one source, unless it has problems or a failure came before. -/
def writeOne (keepListing : Bool) (run : BuildRun) (item : Compiled × Path) : BuildRun :=
  let (compiled, place) := item
  if run.fatal.isSome || compiled.failed then
    run
  else
    let (files, result) := writeArtifact run.workspace.files compiled place keepListing
    let begun : BuildEvent := { file := compiled.path, stage := .write, status := .working }
    let after :=
      { run with
        timings := run.timings.add .write 0
        workspace := { run.workspace with files := files } }
    match result with
    | .ok artifact =>
        { after with
          events := run.events ++ [begun, { begun with status := .done }]
          artifacts := run.artifacts ++ [artifact] }
    | .error failure =>
        { after with
          events := run.events ++ [begun, { begun with status := .error, failure := some failure }]
          fatal := some failure }

/-- A build in which some files have problems fails in the end. -/
def close (run : BuildRun) : BuildRun :=
  if run.fatal.isNone && 0 < run.failures then
    { run with
      fatal := some (.plain (Bytes.ofString
        (toString run.failures ++ " of " ++ toString run.outcomes.length ++
          " file(s) failed to compile"))) }
  else
    run

/-- Write everything that was made. -/
def writeAll (request : BuildRequest) (run : BuildRun) : BuildRun :=
  match Output.places request.files request.baseDir request.outDir with
  | .error collision => { run with fatal := some (.plain (Bytes.ofString collision.message)) }
  | .ok places =>
      ((run.reached.zip places).foldl (writeOne request.options.keepListing) run).close

/-- Compile and write the files of a request. -/
def build (request : BuildRequest) (cancelled : Bool) (workspace : Workspace) : BuildRun :=
  if request.outDir = "" then
    refused workspace "missing output directory"
  else
    let run := compile request cancelled workspace
    if run.fatal.isSome then
      run
    else
      writeAll request run

/-- Compile what is asked for, if anything is. -/
def compile? (request : Option BuildRequest) (cancelled : Bool) (workspace : Workspace) :
    BuildRun :=
  match request with
  | none => refused workspace "missing compile request"
  | some asked => compile asked cancelled workspace

/-- Build what is asked for, if anything is. -/
def build? (request : Option BuildRequest) (cancelled : Bool) (workspace : Workspace) :
    BuildRun :=
  match request with
  | none => refused workspace "missing build request"
  | some asked => build asked cancelled workspace

end BuildRun

end IlsCompiler
