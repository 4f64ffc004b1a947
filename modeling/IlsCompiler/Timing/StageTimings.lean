import IlsCompiler.Build.Stage
import IlsCompiler.Timing.Timer

namespace IlsCompiler

/-!
# Durations of stages

How long each stage took, over all files together.
-/

/-- The stages that took time, each with its duration in nanoseconds. -/
structure StageTimings where
  durations : List (Stage × Int)
deriving DecidableEq, Repr, Inhabited

namespace StageTimings

/-- No stage took time yet. -/
def empty : StageTimings := ⟨[]⟩

/-- Whether a duration is recorded for a stage. -/
def has (timings : StageTimings) (stage : Stage) : Bool :=
  timings.durations.any fun entry => entry.1 == stage

/-- The duration of a stage. -/
def duration (timings : StageTimings) (stage : Stage) : Int :=
  (timings.durations.lookup stage).getD 0

/-- Add to the duration of a stage. -/
def add (timings : StageTimings) (stage : Stage) (duration : Int) : StageTimings :=
  let sum := Timer.total [timings.duration stage, duration]
  ⟨(timings.durations.filter fun entry => entry.1 != stage) ++ [(stage, sum)]⟩

/-- The duration of stages together. -/
def sum (timings : StageTimings) (stages : List Stage) : Int :=
  Timer.total (stages.map timings.duration)

/-- The stages of a build that took time, in order. -/
def recorded (timings : StageTimings) : List Stage :=
  Stage.all.filter timings.has

/-- A line with a duration in milliseconds. -/
def line (name : String) (duration : Int) : String :=
  Text.padRight 6 name ++ " " ++ Text.fixedQuotient 1 duration 1000000 ++ " ms\n"

/-- A line for each stage that took time, and one for all of them together. -/
def text (timings : StageTimings) : String :=
  String.join (timings.recorded.map fun stage => line stage.name (timings.duration stage)) ++
    line "total" (timings.sum Stage.all)

end StageTimings

end IlsCompiler
