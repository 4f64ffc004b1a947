import IlsCompiler.Build.Progress
import IlsCompiler.CommandLine.Environment

namespace IlsCompiler.CommandLine

/-!
# The build command

Sources come from the command line or from the manifest of the project; flags go
before what the manifest says.
-/

/-- What a build command comes down to. -/
structure BuildSettings where
  request : BuildRequest
  cache : Bool
  title : String

/-- What is said where there is no manifest. -/
def missingManifestMessage : String :=
  "no ils.toml found\nplease pass the sources explicitly, e.g.:\n  ilsc build path/to/main.ils"

/-- What a manifest says about the build. -/
def settingsOfManifest (files : FileSystem) : Except Failure BuildSettings :=
  match Manifest.load files "." with
  | .error failure => .error failure
  | .ok none => .error (.report .missingManifest 0 missingManifestMessage)
  | .ok (some manifest) =>
      (manifest.sourceFiles files).map fun sources =>
        { request :=
            { files := sources.map Path.text
              options :=
                { keepListing := manifest.config.keepListing
                  verifyListing := manifest.config.verifyListing }
              baseDir := manifest.root.text
              outDir := manifest.outDir }
          cache := manifest.config.cache
          title := "building " ++ manifest.config.name }

/-- What the arguments say about the build. -/
def settingsOfArguments (environment : Environment) (arguments : List String) :
    Except Failure BuildSettings :=
  match Sources.expand environment.files arguments with
  | .error fault => .error (.report .loadFile 0 fault.message)
  | .ok sources =>
      .ok
        { request :=
            { files := sources.map Path.text
              baseDir := environment.workingDirectory
              outDir := ProjectConfig.defaultOutDir }
          cache := true
          title := "building " ++ toString sources.length ++ " file(s)" }

/-- A truth flag that was given, or else another value. -/
def truthOr (request : Request) (name : String) (otherwise : Bool) : Bool :=
  if (request.given? name).isSome then
    request.truth name
  else
    otherwise

/-- Let flags go before what the manifest says. -/
def withFlags (request : Request) (settings : BuildSettings) : BuildSettings :=
  let build := settings.request
  { settings with
    request :=
      { build with
        options :=
          { diagnosticLimit := request.integer "max-diagnostics"
            keepListing := truthOr request "keep-ir" build.options.keepListing
            verifyListing := truthOr request "verify-ir" build.options.verifyListing }
        outDir :=
          if (request.given? "out-dir").isSome then request.text "out-dir" else build.outDir }
    cache := settings.cache && !request.truth "no-cache" }

/-- What a build command comes down to. -/
def buildSettings (request : Request) (environment : Environment) :
    Except Failure BuildSettings :=
  let settings :=
    if request.arguments.isEmpty then
      settingsOfManifest environment.files
    else
      settingsOfArguments environment request.arguments
  settings.map (withFlags request)

/-- The line for a file that was written. -/
def writtenLine (baseDir : String) (artifact : Artifact) : String :=
  let shown :=
    (Path.relative? (Path.parse baseDir) (Path.parse artifact.assembly)).getD artifact.assembly
  "wrote " ++ shown ++ "\n"

/-- How long the phases of a compilation took. -/
def phaseSummary (compilation : Compilation) : Bytes :=
  if compilation.compiled.cached then
    []
  else
    let timer := compilation.phases.foldl
      (fun current phase => current.track phase.1.name phase.2) (Timer.start .still)
    timer.summary compilation.compiled.path

/-- The diagnostics of a file in order and without repetitions. -/
def fileDiagnostics (styled : Bool) (compiled : Compiled) : Bytes :=
  Diagnostic.render styled compiled.bag.sort.dedup.items

/-- What is shown of the progress of a build that has ended. -/
def progressView (settings : BuildSettings) (run : BuildRun) : String :=
  (run.events.foldl Progress.apply
    (Progress.start settings.title settings.request.files)).finish.view

/-- The events kept for a failure. -/
def recentEvents (tracer : Trace.Tracer) : String :=
  match tracer.ring? with
  | none => ""
  | some ring => "recent trace events:\n" ++ ring.text .plain

/-- Tell how a build ended. -/
def buildReport (request : Request) (settings : BuildSettings) (run : BuildRun)
    (answer : Answer) : Answer :=
  let environment := answer.environment
  match useColor request environment.messagesAreTerminal with
  | .error failure => answer.fail failure
  | .ok color =>
      let told := answer.tell
        (run.reached.flatMap (fileDiagnostics (color && environment.outputIsTerminal)))
      match run.fatal with
      | some failure =>
          let shown :=
            if 0 < run.failures then
              told.tell (Bytes.ofString (recentEvents answer.tracer))
            else
              told
          shown.fail failure
      | none =>
          let written :=
            if request.truth "quiet" then
              told
            else
              told.print (Bytes.ofString (String.join
                (run.artifacts.map (writtenLine settings.request.baseDir))))
          if request.truth "timings" then
            written.print
              (Bytes.ofString run.timings.text ++ run.runs.flatMap phaseSummary)
          else
            written

/-- Open the cache if it is wanted; a build goes on without one that cannot be opened. -/
def withCache (wanted : Bool) (answer : Answer) : Answer × Option CacheStore :=
  if wanted then
    match answer.environment.openCache with
    | .ok environment => ({ answer with environment := environment }, some environment.cache)
    | .error fault =>
        (answer.tell (Bytes.ofString ("warning: cache disabled: " ++ fault.message ++ "\n")), none)
  else
    (answer, none)

/-- Build the sources of a command. -/
def build (request : Request) (toMessages : Bool) (answer : Answer) : Answer :=
  match wantsProgress (request.text "ui") (request.truth "quiet")
      answer.environment.outputIsTerminal with
  | .error failure => answer.fail failure
  | .ok showsProgress =>
      match buildSettings request answer.environment with
      | .error failure => answer.fail failure
      | .ok settings =>
          let (opened, cache) := withCache settings.cache answer
          let run := BuildRun.build settings.request false
            { files := opened.environment.files, cache := cache, tracer := opened.tracer }
          let after :=
            { opened with
              environment :=
                { opened.environment with
                  files := run.workspace.files
                  cache := run.workspace.cache.getD opened.environment.cache }
              tracer := run.workspace.tracer }
          let traced :=
            if toMessages then after.tell (Bytes.ofString after.tracer.streamed) else after
          let shown :=
            if showsProgress then
              traced.print (Bytes.ofString (progressView settings run))
            else
              traced
          buildReport request settings run shown

end IlsCompiler.CommandLine
