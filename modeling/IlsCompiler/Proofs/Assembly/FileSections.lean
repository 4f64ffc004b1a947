import IlsCompiler.Proofs.Lowering.Visits
import IlsCompiler.Proofs.Assembly.Functions

namespace IlsCompiler.Lower

/-!
# Code up to a statement

When lowering comes to a statement, the listing has only grown, and the code made for what
was lowered so far agrees with it. So what is shown for one statement, from a state and
code that agree, holds for every statement of every body.
-/

open LoweringState

variable
    {listing : Listing}
    {target : Stmt}
    {start finish state after : LoweringState}

/--
What has been done when lowering comes to a statement: the listing only grew, the state is
in a scope of the function, code for what is lowered so far agrees with it, and what is
lowered behind the statement adds to it.
-/
structure Path (listing : Listing) (target : Stmt) (start finish state after : LoweringState) :
    Prop where
  grows : state.Grows start
  runs : ∃ routines, listing.Runs state start routines
  inside : Inside start.listing.scopes start.scope
  lowered : statement target start = .ok ((), finish)
  ends : finish.listing.Extends after.listing

namespace Path

/-- A way to a statement that goes on behind an earlier part. -/
theorem behind
    {middle : LoweringState}
    {routines : List String}
    (earlier : state.Grows middle)
    (runs : listing.Runs state middle routines)
    (path : Path listing target start finish middle after) :
    Path listing target start finish state after := by
  obtain ⟨more, later⟩ := path.runs
  exact { path with grows := earlier.trans path.grows, runs := ⟨_, runs.trans later⟩ }

theorem before
    {later : LoweringState}
    (path : Path listing target start finish state after)
    (more : after.listing.Extends later.listing) :
    Path listing target start finish state later :=
  { path with ends := path.ends.trans more }

end Path

theorem runs_chooseBegun
    (state : LoweringState) :
    listing.Runs state (chooseBegun state) [] :=
  (Listing.Runs.of_same_nodes (proceeds_numbered state).extends_ rfl).trans (.labelled _ _)

theorem runs_loopBegun
    (state : LoweringState) :
    listing.Runs state (loopBegun state) [] :=
  ((Listing.Runs.of_same_nodes (proceeds_numbered state).extends_ rfl).trans
    (.jumped _ _ _)).trans (.labelled _ _)

/-- What closes a scope only adds to the listing. -/
theorem extends_closed
    (between : LoweringState) :
    between.listing.Extends
      (between.emptied.labelled between.innermost.endLabel).popped.listing :=
  ((computes_emptied between).toProceeds.trans (proceeds_labelled _ _)).extends_

variable
    {kind : Scope.Kind}
    {body : List Stmt}

/-- A way through the body of a scope is a way through the scope. -/
theorem inScope_path
    {exitLabel : String}
    (each : ∀ {after : LoweringState},
      Inside (state.entered kind exitLabel).listing.scopes (state.entered kind exitLabel).scope →
        statements body (state.entered kind exitLabel) = .ok ((), after) →
          after.listing.Extends listing →
            Path listing target start finish (state.entered kind exitLabel) after)
    (lowered : inScope kind exitLabel (statements body) state = .ok ((), after))
    (grown : after.listing.Extends listing) :
    Path listing target start finish state after := by
  obtain ⟨between, _, bodyLowered, _, rfl⟩ := inScope_ok lowered
  have ends := extends_closed between
  have path := each (inside_entered state kind exitLabel) bodyLowered (ends.trans grown)
  exact (path.behind (grows_entered state kind exitLabel) (.entered _ _ _)).before ends

section Sites

variable
    (numbered : listing.Numbered)

include numbered

/-- A condition and the label behind it, in front of an arm. -/
theorem arm_begun
    {test : Option Condition}
    {whenTrue whenFalse : String}
    {tested : LoweringState}
    (conditioned : condition test whenTrue whenFalse false state = .ok ((), tested))
    (grown : (tested.labelled whenTrue).listing.Extends listing) :
    state.Proceeds (tested.labelled whenTrue) ∧
      ∃ routines, listing.Runs state (tested.labelled whenTrue) routines := by
  have labels := proceeds_labelled tested whenTrue
  have runs := condition_runs numbered conditioned (labels.extends_.trans grown)
  exact ⟨(condition_proceeds conditioned).trans labels, _, runs.trans (.labelled _ _)⟩

/-- An arm of a choice as a whole, with the jump behind it. -/
theorem arm_passed
    {chosen : LoweringState}
    {endLabel : String}
    {next : Branch}
    (lowered : inScope kind "" (statements body) state = .ok ((), chosen))
    (grown : (skipped chosen endLabel next).listing.Extends listing) :
    state.Proceeds (skipped chosen endLabel next) ∧
      ∃ routines, listing.Runs state (skipped chosen endLabel next) routines := by
  have skips := composed_proceeds.skipped chosen endLabel next
  have runs := inScope_runs ((lowering_runs numbered).2.2 body) lowered
    (skips.extends_.trans grown)
  exact ⟨(inScope_proceeds statements_proceeds lowered).trans skips, _,
    runs.trans (.skipped _ _ _)⟩

/-- Lowering a site passes every statement that it visits. -/
theorem Visits.path
    {site : Site}
    (visits : Visits target start finish site state)
    (inside : Inside state.listing.scopes state.scope)
    (lowered : site.lower state = .ok ((), after))
    (grown : after.listing.Extends listing) :
    Path listing target start finish state after := by
  induction visits generalizing after with
  | here visited =>
      cases visited.symm.trans lowered
      exact ⟨.refl _, ⟨[], .of_same_nodes (.refl _) rfl⟩, inside, visited, .refl _⟩
  | first visits inductionHypothesis =>
      obtain ⟨between, firstLowered, restLowered⟩ := statements_cons_ok lowered
      have ends := (statements_proceeds restLowered).extends_
      exact (inductionHypothesis inside firstLowered (ends.trans grown)).before ends
  | rest passed visits inductionHypothesis =>
      obtain ⟨between, firstLowered, restLowered⟩ := statements_cons_ok lowered
      cases passed.symm.trans firstLowered
      have proceeds := statement_proceeds passed
      have runs := (lowering_runs numbered).1 _ inside passed
        ((statements_proceeds restLowered).extends_.trans grown)
      exact (inductionHypothesis (inside.proceeds proceeds) restLowered grown).behind
        proceeds.toGrows runs
  | block visits inductionHypothesis =>
      rw [Site.lower] at lowered
      exact inScope_path (fun inside => inductionHypothesis inside) (statement_block_ok lowered)
        grown
  | @loop line test bodyLine body state visits inductionHypothesis =>
      rw [Site.lower] at lowered
      obtain ⟨looped, tested, _, bodyLowered, _, conditioned, _, rfl⟩ := statement_loop_ok lowered
      have ends := ((proceeds_labelled looped
        (loopStem state.listing.labelCount ++ "_COND")).trans
          ((condition_proceeds conditioned).trans (proceeds_labelled tested (loopEnd state)))).extends_
      have path := inScope_path (fun inside => inductionHypothesis inside) bodyLowered
        (ends.trans grown)
      exact (path.before ends).behind (proceeds_loopBegun state).toGrows (runs_loopBegun state)
  | @chosen line test bodyLine body next state tested conditioned visits inductionHypothesis =>
      rw [Site.lower] at lowered
      obtain ⟨other, chosen, branched, _, sameTest, _, bodyLowered, nextLowered, _, rfl⟩ :=
        statement_choose_ok lowered
      cases conditioned.symm.trans sameTest
      have ends := ((composed_proceeds.skipped chosen (chooseEnd state) next).trans
        ((branch_proceeds nextLowered).trans (proceeds_labelled branched (chooseEnd state)))).extends_
      have arm := (inScope_proceeds statements_proceeds bodyLowered).extends_
      obtain ⟨begins, _, runs⟩ := arm_begun numbered conditioned (arm.trans (ends.trans grown))
      have path := inScope_path (fun inside => inductionHypothesis inside) bodyLowered
        (ends.trans grown)
      exact ((path.before ends).behind begins.toGrows runs).behind
        (proceeds_chooseBegun state).toGrows (runs_chooseBegun state)
  | @next line test bodyLine body next state tested chosen conditioned armLowered visits
      inductionHypothesis =>
      rw [Site.lower] at lowered
      obtain ⟨other, otherChosen, branched, _, sameTest, _, bodyLowered, nextLowered, _, rfl⟩ :=
        statement_choose_ok lowered
      cases conditioned.symm.trans sameTest
      cases armLowered.symm.trans bodyLowered
      have ends := (proceeds_labelled branched (chooseEnd state)).extends_
      have more := (branch_proceeds nextLowered).extends_.trans (ends.trans grown)
      obtain ⟨passes, _, armRuns⟩ := arm_passed numbered armLowered more
      obtain ⟨begins, _, runs⟩ := arm_begun numbered conditioned (passes.extends_.trans more)
      have whole := (proceeds_chooseBegun state).trans (begins.trans passes)
      have path := inductionHypothesis (inside.proceeds whole) nextLowered (ends.trans grown)
      exact (path.before ends).behind whole.toGrows
        ((runs_chooseBegun state).trans (runs.trans armRuns))
  | otherwise visits inductionHypothesis =>
      rw [Site.lower] at lowered
      obtain ⟨_, bodyLowered⟩ := branch_otherwise_ok lowered
      exact (inScope_path (fun inside => inductionHypothesis inside) bodyLowered grown).behind
        (proceeds_labelled _ _).toGrows (.labelled _ _)
  | @elif number arm endLabel line test bodyLine body next state tested conditioned visits
      inductionHypothesis =>
      rw [Site.lower] at lowered
      obtain ⟨other, chosen, _, sameTest, _, bodyLowered, nextLowered⟩ := branch_elif_ok lowered
      cases conditioned.symm.trans sameTest
      have ends := ((composed_proceeds.skipped chosen endLabel next).trans
        (branch_proceeds nextLowered)).extends_
      have wholeArm := (inScope_proceeds statements_proceeds bodyLowered).extends_
      obtain ⟨begins, _, runs⟩ := arm_begun numbered conditioned
        (wholeArm.trans (ends.trans grown))
      have path := inScope_path (fun inside => inductionHypothesis inside) bodyLowered
        (ends.trans grown)
      exact ((path.before ends).behind begins.toGrows runs).behind
        (proceeds_labelled _ _).toGrows (.labelled _ _)
  | @elifNext number arm endLabel line test bodyLine body next state tested chosen conditioned
      armLowered visits inductionHypothesis =>
      rw [Site.lower] at lowered
      obtain ⟨other, otherChosen, _, sameTest, _, bodyLowered, nextLowered⟩ :=
        branch_elif_ok lowered
      cases conditioned.symm.trans sameTest
      cases armLowered.symm.trans bodyLowered
      have more := (branch_proceeds nextLowered).extends_.trans grown
      obtain ⟨passes, _, armRuns⟩ := arm_passed numbered armLowered more
      obtain ⟨begins, _, runs⟩ := arm_begun numbered conditioned (passes.extends_.trans more)
      have whole := (proceeds_labelled state (armLabel number arm)).trans (begins.trans passes)
      have labels : listing.Runs state (state.labelled (armLabel number arm)) [] := .labelled _ _
      exact (inductionHypothesis (inside.proceeds whole) nextLowered grown).behind whole.toGrows
        (labels.trans (runs.trans armRuns))

end Sites

end IlsCompiler.Lower

namespace IlsCompiler.Lower

open LoweringState AssemblyFile

/-!
## Where a file takes the functions

The nodes from which a file is made are those of the global variables and, behind them, the
sections of the functions that are kept. A file takes one section after the other, and between
two of them no function is open.
-/

variable
    {listing : Listing}
    {before after : LoweringState}
    {parts : List FunctionSection}
    {file final : AssemblyFile}

/--
Behind sections that a file took, whichever of them were kept, no function is open, and the code
has only grown.
-/
theorem Laid.taken
    (numbered : listing.Numbered)
    (keeps : FunctionSection → Bool)
    (laid : Laid parts before after)
    (grown : after.listing.Extends listing)
    (taken : Takes listing ((parts.filter keeps).flatMap FunctionSection.nodes) file final)
    (isOutside : file.current = none)
    (counted : ∀ number ∈ file.calls, number < before.listing.callCount) :
    final.current = none ∧ (∀ number ∈ final.calls, number < after.listing.callCount) ∧
      ∃ added, final.code = file.code ++ added := by
  induction laid generalizing file with
  | nil =>
      cases taken
      exact ⟨isOutside, counted, [], (List.append_nil _).symm⟩
  | @cons part rest after known parameters lowered restLaid inductionHypothesis =>
      have more := restLaid.extends_
      by_cases isKept : keeps part
      · rw [List.filter_cons_of_pos isKept, List.flatMap_cons] at taken
        obtain ⟨between, firstTaken, restTaken⟩ := takes_append_iff.mp taken
        obtain ⟨isClosed, stillCounted, code, appended, _⟩ := function_taken numbered parameters
          lowered (more.trans grown) firstTaken isOutside counted
        obtain ⟨stillClosed, allCounted, added, behind⟩ :=
          inductionHypothesis grown restTaken isClosed stillCounted
        exact ⟨stillClosed, allCounted, code.texts ++ [""] ++ added, by simp [behind, appended]⟩
      · rw [List.filter_cons_of_neg isKept] at taken
        have counts := (functionBody_tags parameters lowered).1.calls
        exact inductionHypothesis grown taken isOutside fun number member =>
          Nat.lt_of_lt_of_le (counted number member) counts

variable
    {declared last : LoweringState}
    {part : FunctionSection}
    {program : Program}
    {pruned : Pruned}
    {text : String}

/-- Where a file takes the section of a function that is kept, and where its code is in the text. -/
theorem Row.emitted
    (row : Row program listing declared last parts)
    (choice : pruned = .whole listing ∨ pruned = .ofListing listing)
    (emitted : listing.emit pruned.nodes = .ok text)
    (member : part ∈ parts)
    (isKept : part.name ∉ pruned.removed) :
    ∃ front back opens closes,
      pruned.nodes = front ++ part.nodes ++ back ∧ Takes listing front (.start listing) opens ∧
        Emitted listing part.name part.body part.function part.start part.finish opens closes ∧
        ∃ earlier later, text = String.join ((earlier ++ closes.code ++ later).map (· ++ "\n")) := by
  have numbered := row.numbered
  obtain ⟨first, rest, rfl, firstLaid, known, parameters, lowered, restLaid⟩ :=
    row.laid.split member
  have ahead : last.listing.Extends listing := row.listing_eq ▸ .refl _
  have finished : part.finish.listing.Extends listing := restLaid.extends_.trans ahead
  have started : part.start.listing.Extends listing :=
    (functionBody_tags parameters lowered).1.trans finished
  have nodes := row.pruned choice
  rw [List.filter_append, List.filter_cons_of_pos (by simpa using isKept),
    List.flatMap_append, List.flatMap_cons, ← List.append_assoc, ← List.append_assoc] at nodes
  obtain ⟨final, taken, rfl⟩ := takes_of_emit emitted
  rw [nodes] at taken
  obtain ⟨closes, taken, restTaken⟩ := takes_append_iff.mp taken
  obtain ⟨opens, frontTaken, partTaken⟩ := takes_append_iff.mp taken
  obtain ⟨globals, globalsTaken, functionsTaken⟩ := takes_append_iff.mp frontTaken
  have declares : ∀ node ∈ declared.listing.nodes.toList, ∃ id line, node = .declare id line := by
    intro node inFront
    have kind := row.ready.globals node inFront
    cases node with
    | declare id line => exact ⟨id, line, rfl⟩
    | _ => cases kind
  obtain ⟨_, noCalls, isOutside⟩ := takes_declarations declares rfl globalsTaken
  obtain ⟨stillOutside, counted, _⟩ := firstLaid.taken numbered _ started functionsTaken isOutside
    (by simp [noCalls, AssemblyFile.start])
  obtain ⟨isClosed, stillCounted, _⟩ :=
    function_taken numbered parameters lowered finished partTaken stillOutside counted
  obtain ⟨_, _, added, code⟩ :=
    restLaid.taken numbered _ ahead restTaken isClosed stillCounted
  refine ⟨_, _, opens, closes, nodes, frontTaken, ⟨known, parameters, lowered, finished, partTaken,
    stillOutside, counted, firstLaid.grounded row.ready.grounded⟩,
    ["global " ++ entryName, "", "section .text"],
    added ++ final.dataLines listing ++ ["extern " ++ PrintFormat.routine], ?_⟩
  rw [AssemblyFile.text, AssemblyFile.lines, code]
  simp only [List.append_assoc]

/--
What lowering added between two states stands among the nodes of a file. Taking the nodes in
front of it, the file has a function open, and from the code of that function on it makes the
code for what was added.
-/
structure Makes (listing : Listing) (nodes : List Node) (start finish : LoweringState)
    (code final : FunctionCode) : Prop where
  place : ∃ front back file,
    nodes = front ++ finish.listing.since start.listing ++ back ∧
      Takes listing front (.start listing) file ∧ file.current = some code
  made : Emit.nodes listing (finish.listing.since start.listing) code = .ok ((), final)

/--
The code of a function up to a statement in it, of the statement, and of what stands behind it up
to the end of the function.
-/
theorem Coded.visited
    {part : FunctionSection}
    {bound between : LoweringState}
    {opens closes : AssemblyFile}
    {almost ended : FunctionCode}
    (coded : Coded listing part.function part.body part.start part.finish bound between opens closes
      almost ended)
    (numbered : listing.Numbered)
    (grown : part.finish.listing.Extends listing)
    {target : Stmt}
    {start finish : LoweringState}
    (visits : Visits target start finish (.body part.body) bound) :
    ∃ code final,
      listing.Emits (part.start.prepared part.function (declarationsIn part.body)).listing
          start.listing (.prologued part.function opens.calls (declarationsIn part.body)) code ∧
        listing.Emits start.listing finish.listing code final ∧
        listing.Emits finish.listing between.closed.listing final almost ∧
        start.Agrees code ∧ Path listing target start finish bound between := by
  have path := visits.path numbered coded.inside coded.bodyLowered
    (coded.closes.grown.trans (coded.ends.trans grown))
  obtain ⟨routines, runs⟩ := path.runs
  have arrives := coded.opens.trans runs
  have second := (statement_proceeds path.lowered).extends_
  have third := path.ends.trans coded.closes.grown
  obtain ⟨code, codeEmits, restEmits⟩ := coded.emits.split arrives.grown (second.trans third)
  obtain ⟨final, emits, behind⟩ := restEmits.split second third
  exact ⟨code, final, codeEmits, emits, behind, (arrives.follows codeEmits coded.agrees).agrees, path⟩

/-- Where a file makes the code of a statement in a function that is kept. -/
theorem Row.makes
    (row : Row program listing declared last parts)
    (choice : pruned = .whole listing ∨ pruned = .ofListing listing)
    (emitted : listing.emit pruned.nodes = .ok text)
    (member : part ∈ parts)
    (isKept : part.name ∉ pruned.removed)
    {bound start finish : LoweringState}
    {target : Stmt}
    (begins : BodyStart part bound)
    (visits : Visits target start finish (.body part.body) bound) :
    ∃ code final,
      Makes listing pruned.nodes start finish code final ∧
        listing.Emits start.listing finish.listing code final ∧ start.Agrees code ∧
        start.Tidy ∧ Inside start.listing.scopes start.scope ∧
        statement target start = .ok ((), finish) ∧ finish.listing.Extends listing := by
  obtain ⟨front, back, opens, closes, nodes, frontTaken, isEmitted, _⟩ :=
    row.emitted choice emitted member isKept
  obtain ⟨same, between, sameBegins, _, _, sameLowered, inner, _, sectionNodes⟩ :=
    functionBody_since isEmitted.parameters isEmitted.lowered
  obtain ⟨also, other, almost, ended, coded⟩ := function_coded isEmitted.parameters
    isEmitted.lowered isEmitted.taken isEmitted.isOutside isEmitted.counted
  cases begins.symm.trans sameBegins
  cases begins.symm.trans coded.parametersBound
  cases sameLowered.symm.trans coded.bodyLowered
  let prepared := part.start.prepared part.function (declarationsIn part.body)
  obtain ⟨code, final, codeEmits, emits, behind, agrees, path⟩ :=
    coded.visited row.numbered isEmitted.grown visits
  have first : prepared.listing.Extends start.listing := by
    obtain ⟨routines, runs⟩ := path.runs
    exact (coded.opens.trans runs).grown
  have second := (statement_proceeds path.lowered).extends_
  have third := path.ends.trans coded.closes.grown
  refine ⟨code, final, ⟨?_, emits.nodes_of second.nodes_eq⟩, emits, agrees,
    path.grows.tidy (coded.tidy isEmitted.grounded.tidy), path.inside, path.lowered,
    third.trans (coded.ends.trans isEmitted.grown)⟩
  -- The nodes in front of the statement are those in front of the function, its entry and
  -- prologue, and those of its body up to the statement.
  let opening := .prologue part.function (declarationsIn part.body) ::
    start.listing.since prepared.listing
  have bodyNodes := first.since_trans (second.trans third)
  have shape : ∃ rest, part.finish.listing.since part.start.listing =
      (.entry part.function :: opening) ++ (finish.listing.since start.listing ++ rest) := by
    rw [sectionNodes, bodyNodes, second.since_trans third]
    exact ⟨between.closed.listing.since finish.listing ++ [.epilogue part.function,
      .closeScope part.start.listing.scopes.size .function true], by simp [opening, prepared]⟩
  obtain ⟨rest, shape⟩ := shape
  have taken := isEmitted.taken
  rw [shape] at taken
  obtain ⟨file, entryTaken, _⟩ := takes_append_iff.mp taken
  have noEnd : ∀ node ∈ opening, node.endsFunction = false := by
    intro node member
    rcases List.mem_cons.mp member with rfl | isInner
    · rfl
    · exact endsFunction_of_proceeds inner node (bodyNodes ▸ List.mem_append_left _ isInner)
  obtain ⟨made, run, _, _, isOpen⟩ := takes_entry noEnd isEmitted.isOutside entryTaken
  obtain ⟨entered, prologueRun, bodyRun⟩ := Emit.nodes_cons_ok_iff.mp run
  cases Emit.prologue_ok prologueRun
  cases bodyRun.symm.trans (codeEmits.nodes_of first.nodes_eq)
  refine ⟨front ++ .entry part.function :: opening, rest ++ back, file, ?_,
    takes_append_iff.mpr ⟨opens, frontTaken, entryTaken⟩, isOpen⟩
  rw [nodes, FunctionSection.nodes, shape]
  simp only [List.append_assoc]

end IlsCompiler.Lower
