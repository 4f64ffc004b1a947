import IlsCompiler.Compilation.Basic
import IlsCompiler.Trace.Tracer

namespace IlsCompiler

/-!
# The trace of a compilation

A compilation is one span. Inside it lowering and emission are spans of their own,
with a point for each function they get to and, for emission, for each node.
-/

namespace Compilation

open Trace

/-- The span of lowering a file, with the functions that it got to. -/
def traceFunctions (path : String) (names : List String) (parent : Nat) (tracer : Tracer) :
    Tracer :=
  let (opened, span) := tracer.openSpan .pass "lower" parent
  let within := names.foldl
    (fun current name => current.point .function "lower func" name (Span.number span)) opened
  within.closeSpan span path

/-- The span of lowering, if it ran. -/
def traceLowering (run : Compilation) (parent : Nat) (tracer : Tracer) : Tracer :=
  match run.lowered with
  | none => tracer
  | some names => traceFunctions run.compiled.path names parent tracer

/-- The point of something that emission got to. -/
def traceMilestone (listing : Listing) (parent : Nat) (tracer : Tracer) :
    Milestone → Tracer
  | .node node =>
      if tracer.level.admits .node then
        tracer.point .node "emit node" (listing.nodeText node) parent
      else
        tracer
  | .function name => tracer.point .function "emit func" name parent

/-- The span of emission, if it ran. -/
def traceEmission (run : Compilation) (parent : Nat) (tracer : Tracer) : Tracer :=
  match run.emitted with
  | none => tracer
  | some (listing, milestones) =>
      let (opened, span) := tracer.openSpan .pass "emit" parent
      let within := milestones.foldl (traceMilestone listing (Span.number span)) opened
      within.closeSpan span run.compiled.path

/--
The trace of a run inside a span. Remarks on the cache stand in front of the phases
when they are about reading and behind them when they are about writing.
-/
def trace (run : Compilation) (parent : Nat) (readFailure writeFailure : Option String)
    (tracer : Tracer) : Tracer :=
  let (opened, span) := tracer.openSpan .driver "compile" parent
  let number := Span.number span
  let read := readFailure.elim opened fun reason =>
    opened.point .driver "cache read failed" reason number
  let ran := run.traceEmission number (run.traceLowering number read)
  let written := writeFailure.elim ran fun reason =>
    ran.point .driver "cache write failed" reason number
  written.closeSpan span run.compiled.status

end Compilation

end IlsCompiler
