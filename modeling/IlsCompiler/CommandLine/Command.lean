import IlsCompiler.CommandLine.Flag
import IlsCompiler.Version

namespace IlsCompiler.CommandLine

/-!
# Commands

The commands of the compiler form a tree. Each has flags of its own, and all share
the flags of the tree's root.
-/

/-- A command. -/
inductive Command where
  | root
  | build
  | ir
  | cfg
  | version
  | cache
  | cacheClean
  | cacheDir
  | help
  | completion
deriving DecidableEq, Repr, Inhabited

/-- How many arguments a command takes. -/
inductive Arity where
  | any
  | exactly (count : Nat)
  | none
deriving DecidableEq, Repr

namespace Command

/-- The commands below a command. -/
def children : Command → List Command
  | .root => [.build, .ir, .cfg, .version, .cache, .help, .completion]
  | .cache => [.cacheClean, .cacheDir]
  | _ => []

/-- The word for a command. -/
def name : Command → String
  | .root => Version.tool
  | .build => "build"
  | .ir => "ir"
  | .cfg => "cfg"
  | .version => "version"
  | .cache => "cache"
  | .cacheClean => "clean"
  | .cacheDir => "dir"
  | .help => "help"
  | .completion => "completion"

/-- The words that lead to a command. -/
def path : Command → String
  | .root => Version.tool
  | .cacheClean => Version.tool ++ " cache clean"
  | .cacheDir => Version.tool ++ " cache dir"
  | command => Version.tool ++ " " ++ command.name

/-- How many arguments a command takes. -/
def arity : Command → Arity
  | .ir => .exactly 1
  | .cfg => .exactly 1
  | .version => .none
  | .cacheClean => .none
  | .cacheDir => .none
  | _ => .any

/-- Whether a command does anything but show what there is. -/
def isRunnable : Command → Bool
  | .root => false
  | .cache => false
  | .help => false
  | .completion => false
  | _ => true

/-- The flags that all commands share. -/
def sharedFlags : List Flag := [
  { name := "color", default := .text "auto" },
  { name := "quiet", default := .truth false },
  { name := "timings", default := .truth false },
  { name := "max-diagnostics", default := .integer 100 },
  { name := "jobs", default := .integer 0 },
  { name := "trace-level", default := .text "off" },
  { name := "trace-out", default := .text "" }]

/-- The flags of a command alone. -/
def ownFlags : Command → List Flag
  | .build => [
      { name := "out-dir", letter := some 'o', default := .text "" },
      { name := "keep-ir", default := .truth false },
      { name := "verify-ir", default := .truth false },
      { name := "no-cache", default := .truth false },
      { name := "ui", default := .text "auto" }]
  | .ir => [
      { name := "no-prune", default := .truth false },
      { name := "verify", default := .truth false }]
  | .cfg => [{ name := "dead", default := .truth false }]
  | .version => [
      { name := "hash", default := .truth false },
      { name := "date", default := .truth false },
      { name := "full", default := .truth false },
      { name := "format", default := .text "pretty" }]
  | _ => []

/-- The flags that say what a command works on. -/
def workFlags (command : Command) : List Flag :=
  command.ownFlags ++ sharedFlags

/-- The flags that ask about a command instead of running it. -/
def askFlags (command : Command) : List Flag :=
  { name := "help", letter := some 'h', default := .truth false } ::
    (if command = .root then
      [{ name := "version", letter := some 'v', default := .truth false }]
    else
      [])

/-- All flags of a command. -/
def flags (command : Command) : List Flag :=
  command.workFlags ++ command.askFlags

end Command

end IlsCompiler.CommandLine
