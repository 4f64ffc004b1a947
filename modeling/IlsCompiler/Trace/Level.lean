import IlsCompiler.Diagnostic.Failure
import IlsCompiler.Text.Basic
import IlsCompiler.Text.Quoted

namespace IlsCompiler.Trace

/-!
# Levels of tracing

A level decides which events are recorded by how fine they are.
-/

/-- How fine an event is; a higher rank is finer. -/
structure Granularity where
  rank : Nat
deriving DecidableEq, Repr, Inhabited

namespace Granularity

/-- A whole compilation or build. -/
def driver : Granularity := ⟨1⟩

/-- One phase of a compilation. -/
def pass : Granularity := ⟨2⟩

/-- One function within a phase. -/
def function : Granularity := ⟨3⟩

/-- One node of a listing. -/
def node : Granularity := ⟨4⟩

/-- The word for a granularity. -/
def name (granularity : Granularity) : String :=
  match granularity.rank with
  | 1 => "driver"
  | 2 => "pass"
  | 3 => "func"
  | 4 => "node"
  | _ => "unknown"

end Granularity

/-- How much is recorded. -/
inductive Level where
  | off
  | error
  | phase
  | detail
  | debug
deriving DecidableEq, Repr, Inhabited

namespace Level

/-- The levels from the quietest, in the order of their numbers. -/
def all : List Level := [.off, .error, .phase, .detail, .debug]

/-- The word for a level. -/
def name : Level → String
  | .off => "off"
  | .error => "error"
  | .phase => "phase"
  | .detail => "detail"
  | .debug => "debug"

/-- The level with a number. -/
def ofNumber? (number : Nat) : Option Level :=
  all[number]?

/-- The word for a level number, also where no level has it. -/
def nameOfNumber (number : Nat) : String :=
  ((ofNumber? number).map name).getD "unknown"

/-- Whether anything is recorded at all. -/
def isOn (level : Level) : Bool :=
  level ≠ .off

/-- Whether events of a granularity are recorded. -/
def admits (level : Level) (granularity : Granularity) : Bool :=
  match level with
  | .off => false
  | .error => granularity.rank ≤ Granularity.function.rank
  | .phase => granularity.rank ≤ Granularity.pass.rank
  | .detail => granularity.rank ≤ Granularity.function.rank
  | .debug => true

/-- Whether events are written out at once, and not only kept for a failure. -/
def streams : Level → Bool
  | .off => false
  | .error => false
  | .phase => true
  | .detail => true
  | .debug => true

/-- The level that a word names, in any case and with blanks around it. -/
def parse (text : String) : Except Failure Level :=
  let word := Text.lower (Text.trim text)
  if word = "" then
    .ok .off
  else
    match all.find? fun level => level.name == word with
    | some level => .ok level
    | none =>
        .error (.plain ("invalid trace level: " ++ Text.quote text ++
          " (expected: off|error|phase|detail|debug)" : String))

end Level

end IlsCompiler.Trace
