import IlsCompiler.CommandLine.Environment
import IlsCompiler.IR.Graph

namespace IlsCompiler.CommandLine

/-!
# Commands that show a listing

The listing of one file, and the graph of its jumps.
-/

/-- Read and lower a file; the tracer records the lowering. -/
def lowerFile (files : FileSystem) (path : String) (tracer : Trace.Tracer) :
    Except Failure Listing × Trace.Tracer :=
  match files.read path with
  | .error fault =>
      (.error ((Failure.report .loadFile 0 ("failed to load file: " ++ fault.message)).inFile path),
        tracer)
  | .ok source =>
      match (Reading.ofSource path source).result with
      | .error diagnostic => (.error (.diagnosed diagnostic), tracer)
      | .ok program =>
          let lowering := Lowering.ofProgram program fun _ => false
          (lowering.result, Compilation.traceFunctions path lowering.started 0 tracer)

/-- Tell a failure: a diagnostic in full, and then only that compiling failed. -/
def renderFailure (request : Request) (answer : Answer) (failure : Failure) : Answer :=
  match failure.diagnostic? with
  | none => answer.fail failure
  | some diagnostic =>
      let environment := answer.environment
      let color := (useColor request environment.messagesAreTerminal).toOption.getD false
      (answer.tell
        (Diagnostic.render (color && environment.outputIsTerminal) [diagnostic])).refuse
        "compilation failed"

/-- Lower the file that a command is about and go on with its listing. -/
def withListing (request : Request) (answer : Answer) (toMessages : Bool)
    (use : Listing → Answer → Answer) : Answer :=
  let path := request.arguments.headD ""
  let (result, tracer) := lowerFile answer.environment.files path answer.tracer
  let traced := { answer with tracer := tracer }
  let told := if toMessages then traced.tell (Bytes.ofString tracer.streamed) else traced
  match result with
  | .error failure => renderFailure request told failure
  | .ok listing => use listing told

/-- Show the listing of a file. -/
def showListing (request : Request) (toMessages : Bool) (answer : Answer) : Answer :=
  withListing request answer toMessages fun listing current =>
    let shown :=
      if request.truth "no-prune" then Pruned.whole listing else Pruned.ofListing listing
    let finding := if request.truth "verify" then shown.validate? listing else none
    match finding with
    | some failure => current.fail (failure.wrap (Bytes.ofString "ir verification failed: "))
    | none => current.print (Bytes.ofString (listing.dump shown.nodes))

/-- Show the graph of a file, or the blocks that nothing jumps to. -/
def showGraph (request : Request) (toMessages : Bool) (answer : Answer) : Answer :=
  withListing request answer toMessages fun listing current =>
    match Graph.ofNodes (Pruned.ofListing listing).nodes with
    | .error fault => renderFailure request current (fault.failure.inFile listing.file)
    | .ok graph =>
        if request.truth "dead" then
          current.print (Bytes.ofString
            (String.join (graph.parentless.map fun block => block.label ++ "\n")))
        else
          current.print (Bytes.ofString (graph.drawing listing))

end IlsCompiler.CommandLine
