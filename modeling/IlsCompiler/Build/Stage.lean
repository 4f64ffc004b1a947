import IlsCompiler.Compilation.Phase
import IlsCompiler.Diagnostic.Failure

namespace IlsCompiler

/-!
# Stages of a build

A file goes through the phases of its compilation and is then written. Progress is
told as the status of a file in a stage.
-/

/-- A stage of a build; `other` is one that no build reaches. -/
inductive Stage where
  | parse
  | lower
  | prune
  | emit
  | write
  | other (name : String)
deriving DecidableEq, Repr, Inhabited

namespace Stage

/-- The stages in the order a file goes through them. -/
def all : List Stage := [.parse, .lower, .prune, .emit, .write]

/-- The word for a stage. -/
def name : Stage → String
  | .parse => "parse"
  | .lower => "lower"
  | .prune => "prune"
  | .emit => "emit"
  | .write => "write"
  | .other name => name

/-- The stage that a word names. -/
def ofName (name : String) : Stage :=
  (all.find? fun stage => stage.name == name).getD (.other name)

/-- The stage of a phase of the compilation. -/
def ofPhase : Phase → Stage
  | .parse => .parse
  | .lower => .lower
  | .prune => .prune
  | .emit => .emit

end Stage

/-- How far a file is in a stage; `other` is a status that no build reaches. -/
inductive Status where
  | queued
  | working
  | done
  | cached
  | error
  | other (name : String)
deriving DecidableEq, Repr, Inhabited

namespace Status

/-- The statuses with a meaning. -/
def all : List Status := [.queued, .working, .done, .cached, .error]

/-- The word for a status. -/
def name : Status → String
  | .queued => "queued"
  | .working => "working"
  | .done => "done"
  | .cached => "cached"
  | .error => "error"
  | .other name => name

/-- The status that a word names. -/
def ofName (name : String) : Status :=
  (all.find? fun status => status.name == name).getD (.other name)

end Status

/-!
## Events of a build

A build tells what happens to each file as it happens. An event without a file is
about the build as a whole.
-/

/-- A file reached a status in a stage. -/
structure BuildEvent where
  file : String
  stage : Stage
  status : Status
  failure : Option Failure := none
deriving DecidableEq, Repr, Inhabited

namespace BuildEvent

/-- The event of a file that waits for its turn. -/
def waiting (file : String) : BuildEvent :=
  { file := file, stage := .parse, status := .queued }

/-- The events of a stage that a file went through. -/
def through (file : String) (stage : Stage) : List BuildEvent :=
  [{ file := file, stage := stage, status := .working },
    { file := file, stage := stage, status := .done }]

end BuildEvent

end IlsCompiler
