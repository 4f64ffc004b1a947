import IlsCompiler.Build.Run
import IlsCompiler.CommandLine.Request
import IlsCompiler.Diagnostic.Render
import IlsCompiler.Project.Manifest

namespace IlsCompiler.CommandLine

/-!
# What a command works with

A command works on files and on the cache, and answers with output, messages and
perhaps a failure. It does not know more about the terminal than whether there is one.
-/

/-- The surroundings of a command. -/
structure Environment where
  files : FileSystem
  cache : CacheStore := .empty
  /-- The directory that holds the caches of all programs. -/
  cacheHome : String
  outputIsTerminal : Bool := false
  messagesAreTerminal : Bool := false

namespace Environment

/-- The directory of the cache. -/
def cacheDirectory (environment : Environment) : Path :=
  Path.join environment.cacheHome Version.tool

/-- Make sure that the cache has its directory. -/
def openCache (environment : Environment) : Except PathFault Environment :=
  (environment.files.makeDirectories environment.cacheDirectory).map fun files =>
    { environment with files := files }

/-- The working directory. -/
def workingDirectory (environment : Environment) : String :=
  "/" ++ "/".intercalate environment.files.directory

end Environment

/-- What a command answers with. -/
structure Answer where
  output : Bytes := []
  messages : Bytes := []
  failure : Option Failure := none
  environment : Environment
  tracer : Trace.Tracer

namespace Answer

/-- An answer to which nothing has been added. -/
def start (environment : Environment) (tracer : Trace.Tracer) : Answer :=
  { environment := environment, tracer := tracer }

/-- Add to the output. -/
def print (answer : Answer) (text : Bytes) : Answer :=
  { answer with output := answer.output ++ text }

/-- Add to the messages. -/
def tell (answer : Answer) (text : Bytes) : Answer :=
  { answer with messages := answer.messages ++ text }

/-- End with a failure. -/
def fail (answer : Answer) (failure : Failure) : Answer :=
  { answer with failure := some failure }

/-- End with a failure that is only a message. -/
def refuse (answer : Answer) (message : String) : Answer :=
  answer.fail (.plain (Bytes.ofString message))

/-- The exit status. -/
def status (answer : Answer) : Nat :=
  if answer.failure.isSome then
    1
  else
    0

end Answer

/-- Whether colors are asked for, given whether the stream is a terminal. -/
def useColor (request : Request) (isTerminal : Bool) : Except Failure Bool :=
  match request.text "color" with
  | "on" => .ok true
  | "off" => .ok false
  | "auto" => .ok isTerminal
  | "" => .ok isTerminal
  | mode =>
      .error (.plain (Bytes.ofString
        ("invalid --color value " ++ Text.quote mode ++ " (expected auto|on|off)")))

/-- Whether progress is shown while a build runs; never if it should be quiet. -/
def wantsProgress (value : String) (quiet isTerminal : Bool) : Except Failure Bool :=
  match Text.trim (Text.lower value) with
  | "" => .ok (isTerminal && !quiet)
  | "auto" => .ok (isTerminal && !quiet)
  | "on" => .ok !quiet
  | "off" => .ok false
  | _ =>
      .error (.plain (Bytes.ofString
        ("invalid --ui value " ++ Text.quote value ++ " (expected auto|on|off)")))

end IlsCompiler.CommandLine
