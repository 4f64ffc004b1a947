import IlsCompiler.Text.Bytes
import IlsCompiler.Text.Decimal
import IlsCompiler.Text.Fixed

namespace IlsCompiler

/-!
# Timers

A timer measures phases with the readings of a clock, in nanoseconds. A phase is
open until it is ended, and counts only after that.
-/

/-- The readings of a clock still to come; the last one repeats. -/
structure Clock where
  readings : List Int
deriving DecidableEq, Repr, Inhabited

namespace Clock

/-- A clock that stands still. -/
def still : Clock := ⟨[]⟩

/-- Read the clock. -/
def read (clock : Clock) : Int × Clock :=
  match clock.readings with
  | [] => (0, clock)
  | [last] => (last, clock)
  | next :: rest => (next, ⟨rest⟩)

end Clock

/-- A phase that is or was measured. -/
structure TimedPhase where
  name : String
  start : Int
  duration : Int := 0
  note : Bytes := []
  isOpen : Bool := true
deriving DecidableEq, Repr, Inhabited

/-- The phases measured so far, and the clock. -/
structure Timer where
  phases : List TimedPhase
  clock : Clock
deriving DecidableEq, Repr, Inhabited

namespace Timer

/-- A timer with a clock. -/
def start (clock : Clock) : Timer :=
  { phases := [], clock := clock }

/-- Start a phase and give its number. -/
def openPhase (timer : Timer) (name : String) : Timer × Nat :=
  let (now, clock) := timer.clock.read
  ({ phases := timer.phases ++ [{ name := name, start := now }], clock := clock },
    timer.phases.length)

/-- End the phase with a number; a number without an open phase is ignored. -/
def closePhase (timer : Timer) (number : Int) (note : Bytes) : Timer :=
  if number < 0 then
    timer
  else
    match timer.phases[number.toNat]? with
    | none => timer
    | some phase =>
        if phase.isOpen then
          let (now, clock) := timer.clock.read
          let ended :=
            { phase with duration := now - phase.start, note := note, isOpen := false }
          { phases := timer.phases.set number.toNat ended, clock := clock }
        else
          timer

/-- Measure a phase from start to end. -/
def track (timer : Timer) (name : String) (note : Bytes) : Timer :=
  let (opened, number) := timer.openPhase name
  opened.closePhase number note

/-- The phases that were ended. -/
def closed (timer : Timer) : List TimedPhase :=
  timer.phases.filter fun phase => !phase.isOpen

/-- Durations added up in a word of 64 bits. -/
def total (durations : List Int) : Int :=
  durations.foldl (fun sum duration => Text.wrap64 (sum + duration)) 0

/-- How long the phases of a name took together. -/
def duration (timer : Timer) (name : String) : Int :=
  total ((timer.closed.filter fun phase => phase.name == name).map fun phase => phase.duration)

/-- A line of a summary: a name and milliseconds. -/
def summaryLine (name : String) (duration : Int) : String :=
  "  " ++ Text.padRight 12 name ++ " " ++
    Text.padLeft 8 (Text.fixedQuotient 2 duration 1000000) ++ " ms"

/-- The line of a phase with its note. -/
def phaseLine (phase : TimedPhase) : Bytes :=
  Bytes.ofString (summaryLine phase.name phase.duration) ++
    (if phase.note.isEmpty then [] else Bytes.ofString "  // " ++ phase.note) ++
    Bytes.ofString "\n"

/-- A line for each phase that was ended, and one for all of them together. -/
def summary (timer : Timer) (file : String) : Bytes :=
  let header := if file = "" then "timings:\n" else "timings for " ++ file ++ ":\n"
  Bytes.ofString header ++ timer.closed.flatMap phaseLine ++
    Bytes.ofString
      (summaryLine "total" (total (timer.closed.map fun phase => phase.duration)) ++ "\n")

end Timer

end IlsCompiler
