import IlsCompiler.CommandLine.BuildCommand
import IlsCompiler.CommandLine.Inspect

namespace IlsCompiler.CommandLine

/-!
# Running a command line

A command line is read, tracing is set up, and the command runs. Any failure is told
at the end.
-/

/-- Show the version. -/
def showVersion (request : Request) (answer : Answer) : Answer :=
  let withCommit := request.truth "hash" || request.truth "full"
  let withDate := request.truth "date" || request.truth "full"
  match Text.lower (request.text "format") with
  | "json" => answer.print (Bytes.ofString (Version.current.json withCommit withDate))
  | "pretty" =>
      match useColor request answer.environment.outputIsTerminal with
      | .error failure => answer.fail failure
      | .ok color =>
          answer.print (Bytes.ofString (Version.current.pretty withCommit withDate color))
  | _ =>
      answer.refuse
        ("unsupported format " ++ Text.quote (request.text "format") ++
          " (must be pretty or json)")

/-- Empty the cache. -/
def cleanCache (request : Request) (answer : Answer) : Answer :=
  match answer.environment.openCache with
  | .error fault => answer.refuse fault.message
  | .ok environment =>
      let cleaned := { answer with environment := { environment with cache := .empty } }
      if request.truth "quiet" then
        cleaned
      else
        cleaned.print (Bytes.ofString ("cleaned " ++ environment.cacheDirectory.text ++ "\n"))

/-- Show the directory of the cache. -/
def showCacheDirectory (answer : Answer) : Answer :=
  match answer.environment.openCache with
  | .error fault => answer.refuse fault.message
  | .ok environment =>
      { answer with environment := environment }.print
        (Bytes.ofString (environment.cacheDirectory.text ++ "\n"))

/-- The lines that say how a command is used. -/
def helpText (command : Command) : String :=
  let children := command.children.map fun child => "  " ++ child.name ++ "\n"
  let flags := command.flags.map fun flag => "  " ++ flag.display ++ "\n"
  "Usage:\n  " ++ command.path ++ "\n" ++
    (if children.isEmpty then "" else "\nAvailable Commands:\n" ++ String.join children) ++
    "\nFlags:\n" ++ String.join flags

/-- How a command is traced: the level, and the file that events go to. -/
structure Tracing where
  level : Trace.Level
  file : String
deriving DecidableEq, Repr

namespace Tracing

/-- The tracing that flags ask for; a file without a level means phases. -/
def ofRequest (request : Request) : Except Failure Tracing :=
  match Trace.Level.parse (request.text "trace-level") with
  | .error failure => .error (failure.wrap (Bytes.ofString "invalid trace level: "))
  | .ok level =>
      let file := request.text "trace-out"
      .ok { level := if level = .off && file ≠ "" then .phase else level, file := file }

/-- Whether events go to a file. -/
def toFile (tracing : Tracing) : Bool :=
  tracing.level.streams && tracing.file ≠ "" && tracing.file ≠ "-"

/-- Make the file for events. -/
def prepare (tracing : Tracing) (environment : Environment) : Except Failure Environment :=
  if tracing.toFile then
    match environment.files.write tracing.file [] with
    | .ok files => .ok { environment with files := files }
    | .error fault =>
        .error (.plain (Bytes.ofString
          ("failed to create tracer: failed to open trace output: " ++ fault.message)))
  else
    .ok environment

/-- Write the events of a command to their file. -/
def finish (tracing : Tracing) (answer : Answer) : Answer :=
  if tracing.toFile then
    match answer.environment.files.write tracing.file
        (Bytes.ofString answer.tracer.streamed) with
    | .ok files => { answer with environment := { answer.environment with files := files } }
    | .error _ => answer
  else
    answer

end Tracing

/-- Do what a command is for. -/
def perform (request : Request) (toMessages : Bool) (answer : Answer) : Answer :=
  match request.command with
  | .build => build request toMessages answer
  | .ir => showListing request toMessages answer
  | .cfg => showGraph request toMessages answer
  | .version => showVersion request answer
  | .cacheClean => cleanCache request answer
  | .cacheDir => showCacheDirectory answer
  | command => answer.print (Bytes.ofString (helpText command))

/-- Run a request with the tracing that it asks for. -/
def runRequest (request : Request) (environment : Environment) : Answer :=
  let idle := Answer.start environment .silent
  match Tracing.ofRequest request with
  | .error failure => idle.fail failure
  | .ok tracing =>
      match tracing.prepare environment with
      | .error failure => idle.fail failure
      | .ok prepared =>
          let tracer := Trace.Tracer.start tracing.level .automatic tracing.file 0
          tracing.finish
            (perform request (!tracing.toFile) (Answer.start prepared tracer))

/-- Tell the failure that a command ended with. -/
def withFailure (answer : Answer) : Answer :=
  match answer.failure with
  | none => answer
  | some failure =>
      answer.tell (Bytes.ofString "error: " ++ failure.text ++ Bytes.ofString "\n")

/-- Run a command line. -/
def run (words : List String) (environment : Environment) : Answer :=
  let idle := Answer.start environment .silent
  withFailure <|
    match read words with
    | .error fault => idle.refuse fault.message
    | .ok (.showHelp command) => idle.print (Bytes.ofString (helpText command))
    | .ok .showVersion =>
        idle.print (Bytes.ofString
          (Version.tool ++ " version " ++ Version.current.number ++ "\n"))
    | .ok (.run request) => runRequest request environment

end IlsCompiler.CommandLine
