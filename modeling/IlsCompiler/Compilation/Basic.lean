import IlsCompiler.Assembly.Emission
import IlsCompiler.Compilation.Phase
import IlsCompiler.Diagnostic.Bag
import IlsCompiler.IR.Prune
import IlsCompiler.Lowering.Program
import IlsCompiler.Program.Parser

namespace IlsCompiler

/-!
# Compilations

A compilation takes source text through all phases. Problems in the source are
collected as diagnostics; any other failure, such as a cancellation, ends the run
and is fatal. A file with diagnostics of error severity has no assembly text.
-/

/-- What a compilation is asked for. -/
structure CompileOptions where
  diagnosticLimit : Int := 0
  /-- Whether the listing that code is made from is kept as text. -/
  keepListing : Bool := false
  /-- Whether that listing is checked before code is made from it. -/
  verifyListing : Bool := false
deriving DecidableEq, Repr, Inhabited

/-- The outcome of compiling one file. -/
structure Compiled where
  path : String
  assembly : Bytes := []
  listing : Bytes := []
  removed : List Bytes := []
  bag : Bag
  cached : Bool := false
deriving DecidableEq, Repr, Inhabited

namespace Compiled

/-- An outcome without anything in it. -/
def start (path : String) (options : CompileOptions) : Compiled :=
  { path := path, bag := .empty options.diagnosticLimit }

/-- Whether the source has problems. -/
def failed (compiled : Compiled) : Bool :=
  compiled.bag.hasErrors

/-- Take a diagnostic in. -/
def report (compiled : Compiled) (diagnostic : Diagnostic) : Compiled :=
  { compiled with bag := (compiled.bag.add diagnostic).1 }

/-- The word for how a compilation ended. -/
def status (compiled : Compiled) : String :=
  if compiled.cached then
    "cached"
  else if compiled.failed then
    "failed"
  else
    "ok"

/-- The outcome for a file that cannot be read. -/
def unreadable (path : String) (options : CompileOptions) (reason : String) : Compiled :=
  (start path options).report
    { Diagnostic.error .loadFile (Bytes.ofString ("failed to load file: " ++ reason)) with
      file := path }

end Compiled

/--
A finished run: the outcome, the failure that ended it early, each phase that ran
with a note on its failure, the functions that lowering got to, and the listing that
code was made from with what emission got to.
-/
structure Compilation where
  compiled : Compiled
  fatal : Option Failure := none
  phases : List (Phase × Bytes) := []
  lowered : Option (List String) := none
  emitted : Option (Listing × List Milestone) := none
deriving Inhabited

namespace Compilation

/-- A run before its first phase. -/
def start (path : String) (options : CompileOptions) : Compilation :=
  { compiled := .start path options }

/-- Whether no further phase runs. -/
def stopped (run : Compilation) : Bool :=
  run.fatal.isSome || run.compiled.failed

/-- Record a failure that ended a phase: a diagnostic is collected, anything else is fatal. -/
def fail (run : Compilation) (failure : Failure) : Compilation :=
  match failure.diagnostic? with
  | some diagnostic => { run with compiled := run.compiled.report diagnostic }
  | none => { run with fatal := some failure }

/-- Record that a phase ran; the note is the text of the failure that ended the run. -/
def finish (phase : Phase) (run : Compilation) : Compilation :=
  { run with phases := run.phases ++ [(phase, (run.fatal.map Failure.text).getD [])] }

/-- Run a phase, unless the run is over or cancelled. -/
def inPhase (phase : Phase) (cancelled : Cancellation) (run : Compilation)
    (work : Compilation → Compilation) : Compilation :=
  if run.stopped then
    run
  else if cancelled (.phase phase) then
    { run with fatal := some .cancelled }
  else
    (work run).finish phase

/-- Parse the source. -/
def parsed (reading : Reading) (run : Compilation) : Compilation :=
  { run with compiled :=
      { run.compiled with bag := run.compiled.bag.addAll reading.diagnostics } }

/-- Lower the program. -/
def afterLowering (lowering : Lowering) (run : Compilation) : Compilation :=
  let run := { run with lowered := some lowering.started }
  match lowering.result with
  | .ok _ => run
  | .error failure => run.fail failure

/-- Leave out unused functions, check the rest if asked to, and keep its text if asked to. -/
def afterPruning (options : CompileOptions) (listing : Listing) (pruned : Pruned)
    (run : Compilation) : Compilation :=
  let compiled := { run.compiled with removed := pruned.removed.map Bytes.ofString }
  let finding := if options.verifyListing then pruned.validate? listing else none
  match finding with
  | some failure =>
      { run with
        compiled := compiled
        fatal := some
          (failure.wrap (Bytes.ofString (compiled.path ++ ": ir verification failed: "))) }
  | none =>
      { run with compiled := { compiled with
          listing :=
            if options.keepListing then Bytes.ofString (listing.dump pruned.nodes) else [] } }

/-- Make code. -/
def afterEmission (listing : Listing) (emission : Emission) (run : Compilation) : Compilation :=
  let run := { run with emitted := some (listing, emission.milestones) }
  match emission.result with
  | .ok text => { run with compiled := { run.compiled with assembly := Bytes.ofString text } }
  | .error failure => run.fail failure

/-- The phases behind lowering. -/
def fromListing (options : CompileOptions) (cancelled : Cancellation) (listing : Listing)
    (run : Compilation) : Compilation :=
  let pruned := Pruned.ofListing listing
  let run := run.inPhase .prune cancelled (afterPruning options listing pruned)
  run.inPhase .emit cancelled
    (afterEmission listing
      (Emission.ofNodes listing pruned.nodes fun number => cancelled (.node number)))

/-- The phases behind parsing. -/
def fromProgram (options : CompileOptions) (cancelled : Cancellation) (program : Program)
    (run : Compilation) : Compilation :=
  let lowering := Lowering.ofProgram program fun number => cancelled (.function number)
  let run := run.inPhase .lower cancelled (afterLowering lowering)
  match lowering.result with
  | .ok listing => run.fromListing options cancelled listing
  | .error _ => run

/-- Compile source text. -/
def ofSource (path : String) (source : Bytes) (options : CompileOptions)
    (cancelled : Cancellation) : Compilation :=
  let reading := Reading.ofSource path source
  let run := (start path options).inPhase .parse cancelled (parsed reading)
  if run.stopped then
    run
  else
    run.fromProgram options cancelled reading.program

end Compilation

end IlsCompiler
