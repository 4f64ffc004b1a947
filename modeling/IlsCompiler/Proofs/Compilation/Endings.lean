import IlsCompiler.Proofs.Lowering.ProgramLabels
import IlsCompiler.Compilation.Basic
import IlsCompiler.Proofs.Assembly.FileRefusals
import IlsCompiler.Proofs.Program.Readings

namespace IlsCompiler

/-!
# Interruption

Lowering and emission look at whether they are interrupted before each function and each node. An
interruption ends them with a cancellation, and as long as there is none they do what they do
without being asked.
-/

namespace Lowering

variable
    {interrupted : Nat → Bool}

/-- Bodies that were lowered without being interrupted are lowered the same when nothing interrupts. -/
theorem bodies_uninterrupted
    {number : Nat}
    {stmts : List Stmt}
    {before after : LoweringState}
    (lowered : (bodies interrupted number stmts before).2 = .ok after) :
    (bodies (fun _ => false) number stmts before).2 = .ok after := by
  induction stmts generalizing before number with
  | nil => exact lowered
  | cons first rest inductionHypothesis =>
      cases first with
      | declare line name type initial => exact inductionHypothesis lowered
      | function line name params result bodyLine body =>
          rw [bodies] at lowered ⊢
          split at lowered
          · cases lowered
          rw [if_neg Bool.false_ne_true]
          cases known : before.listing.function? name with
          | none => simp [known] at lowered
          | some function =>
              cases run : Lower.functionBody function.signature body before with
              | error failure => simp [known, run] at lowered
              | ok pair =>
                  simp only [known, run] at lowered ⊢
                  exact inductionHypothesis lowered
      | _ => cases lowered

/-- A program that was lowered without being interrupted is lowered. -/
theorem lower_of_ofProgram
    {program : Program}
    {listing : Listing}
    (lowered : (ofProgram program interrupted).result = .ok listing) :
    program.lower = .ok listing := by
  unfold Program.lower
  unfold ofProgram at lowered ⊢
  cases declared : Lower.declarations program (Lower.start program.file) with
  | error failure => simp [declared] at lowered
  | ok pair =>
      simp only [declared] at lowered ⊢
      cases run : (bodies interrupted 0 program.statements pair.2).2 with
      | error failure => simp [run] at lowered
      | ok final =>
          simp only [run] at lowered
          simp [bodies_uninterrupted run, lowered]

end Lowering

namespace Emission

variable
    {listing : Listing}
    {interrupted : Nat → Bool}

/-- Nodes are taken as without an interruption, or there is one. -/
theorem steps_uninterrupted
    (number : Nat)
    (nodes : List Node)
    (file : AssemblyFile) :
    (steps listing interrupted number nodes file).2 =
        (steps listing (fun _ => false) number nodes file).2 ∨
      (steps listing interrupted number nodes file).2 = .error .cancelled ∧
        ∃ reached, interrupted reached = true := by
  induction nodes generalizing file number with
  | nil => exact .inl rfl
  | cons node rest inductionHypothesis =>
      simp only [steps, Bool.false_eq_true, ↓reduceIte]
      by_cases isInterrupted : interrupted number = true
      · rw [if_pos isInterrupted]
        exact .inr ⟨rfl, number, isInterrupted⟩
      · rw [if_neg isInterrupted]
        cases file.step listing node with
        | error failure => exact .inl rfl
        | ok between => exact inductionHypothesis (number + 1) between

/-- Emission ends as without an interruption, or there is one. -/
theorem ofNodes_uninterrupted
    (nodes : List Node) :
    (ofNodes listing nodes interrupted).result = listing.emit nodes ∨
      (ofNodes listing nodes interrupted).result = .error .cancelled ∧
        ∃ reached, interrupted reached = true := by
  unfold Listing.emit ofNodes
  rcases @steps_uninterrupted listing interrupted 0 nodes (.start listing) with
    same | ⟨isCancelled, reached⟩
  · left
    simp only [same]
    split <;> rfl
  · right
    simp only [isCancelled]
    exact ⟨rfl, reached⟩

end Emission

end IlsCompiler

namespace IlsCompiler

/-!
## How compilations end

A compilation makes a text, or is refused with one diagnostic, or is cancelled. Which of these it is
follows from the source and from the checkpoints at which it is cancelled, not from what else it is
asked for: not from how many diagnostics there may be, nor from whether the listing is kept or
checked.
-/

/-- How a compilation ends. -/
inductive Ending where
  | made (assembly : Bytes)
  | refused (diagnostic : Diagnostic)
  | cancelled
deriving DecidableEq, Repr

/-- The text of an assembly file has something in it. -/
theorem AssemblyFile.text_nonempty
    (file : AssemblyFile)
    (listing : Listing) :
    Bytes.ofString (file.text listing) ≠ [] := by
  obtain ⟨rest, isText⟩ : ∃ rest, file.text listing = "global " ++ rest :=
    ⟨_, by simp [text, lines, String.join_cons, String.append_assoc]; rfl⟩
  rw [isText]
  simp only [Bytes.ofString, String.toUTF8_eq_toByteArray, String.toByteArray_append,
    ByteArray.data_append, Array.toList_append, ne_eq, List.append_eq_nil_iff, not_and]
  exact fun empty => absurd empty (by decide)

namespace Compilation

variable
    {run : Compilation}
    {cancelled : Cancellation}

/-- The end of a run: the failure that ended it early, its diagnostics and its assembly text. -/
def Ends (run : Compilation) : Ending → Prop
  | .made assembly =>
      run.fatal = none ∧ run.compiled.bag.items = [] ∧ run.compiled.assembly = assembly ∧
        assembly ≠ []
  | .refused diagnostic =>
      run.fatal = none ∧ run.compiled.bag.items = [diagnostic] ∧ diagnostic.severity = .error ∧
        run.compiled.assembly = []
  | .cancelled =>
      run.fatal = some .cancelled ∧ run.compiled.bag.items = [] ∧ run.compiled.assembly = []

/-- A run ends in one way only. -/
theorem Ends.unique
    {ending other : Ending}
    (ends : run.Ends ending)
    (endsOther : run.Ends other) :
    ending = other := by
  cases ending with
  | made assembly =>
      cases other with
      | made later => rw [← ends.2.2.1, endsOther.2.2.1]
      | refused diagnostic => exact nomatch ends.2.1.symm.trans endsOther.2.1
      | cancelled => exact nomatch ends.1.symm.trans endsOther.1
  | refused diagnostic =>
      cases other with
      | made assembly => exact nomatch ends.2.1.symm.trans endsOther.2.1
      | refused later => rw [(List.cons.inj (ends.2.1.symm.trans endsOther.2.1)).1]
      | cancelled => exact nomatch ends.1.symm.trans endsOther.1
  | cancelled =>
      cases other with
      | made assembly => exact nomatch ends.1.symm.trans endsOther.1
      | refused diagnostic => exact nomatch ends.1.symm.trans endsOther.1
      | cancelled => rfl

theorem Ends.finish
    {ending : Ending}
    (ends : run.Ends ending)
    (phase : Phase) :
    (run.finish phase).Ends ending := by
  cases ending <;> exact ends

/-- A run that is refused or cancelled takes part in no further phase. -/
theorem Ends.stopped
    {ending : Ending}
    (ends : run.Ends ending)
    (unmade : ∀ assembly, ending ≠ .made assembly) :
    run.stopped = true := by
  cases ending with
  | made assembly => exact (unmade assembly rfl).elim
  | refused diagnostic =>
      obtain ⟨-, items, severity, -⟩ := ends
      simp [Compilation.stopped, Compiled.failed, Bag.hasErrors, items, severity,
        Severity.isError]
  | cancelled => simp [Compilation.stopped, ends.1]

theorem Ends.inPhase
    {ending : Ending}
    (ends : run.Ends ending)
    (unmade : ∀ assembly, ending ≠ .made assembly)
    (phase : Phase)
    (work : Compilation → Compilation) :
    (run.inPhase phase cancelled work).Ends ending := by
  rw [Compilation.inPhase, if_pos (ends.stopped unmade)]
  exact ends

/-- A run in which nothing has gone wrong and no text has been made. -/
structure IsOpen (run : Compilation) : Prop where
  fatal : run.fatal = none
  bag : run.compiled.bag.IsFresh
  assembly : run.compiled.assembly = []

theorem isOpen_start
    (path : String)
    (options : CompileOptions) :
    (start path options).IsOpen where
  fatal := rfl
  bag := Bag.isFresh_empty _
  assembly := rfl

theorem IsOpen.finish
    (isOpen : run.IsOpen)
    (phase : Phase) :
    (run.finish phase).IsOpen :=
  ⟨isOpen.fatal, isOpen.bag, isOpen.assembly⟩

theorem IsOpen.stopped
    (isOpen : run.IsOpen) :
    run.stopped = false := by
  simp [Compilation.stopped, isOpen.fatal, Compiled.failed, Bag.hasErrors, isOpen.bag.items]

variable
    {phase : Phase}

/-- An open run that is cancelled in front of a phase ends there. -/
theorem IsOpen.ends_cancelled
    (isOpen : run.IsOpen)
    (isCancelled : cancelled (.phase phase) = true)
    (work : Compilation → Compilation) :
    (run.inPhase phase cancelled work).Ends .cancelled := by
  rw [Compilation.inPhase, if_neg (by simp [isOpen.stopped]), if_pos isCancelled]
  exact ⟨rfl, isOpen.bag.items, isOpen.assembly⟩

/-- An open run that is not cancelled in front of a phase goes through it. -/
theorem IsOpen.inPhase_eq
    (isOpen : run.IsOpen)
    (notCancelled : ¬cancelled (.phase phase) = true)
    (work : Compilation → Compilation) :
    run.inPhase phase cancelled work = (work run).finish phase := by
  rw [Compilation.inPhase, if_neg (by simp [isOpen.stopped]), if_neg notCancelled]

/-- A failure that is reported ends an open run with its diagnostic. -/
theorem IsOpen.ends_fail
    (isOpen : run.IsOpen)
    {failure : Failure}
    {diagnostic : Diagnostic}
    (carried : failure.diagnostic? = some diagnostic)
    (isReported : failure.IsReported) :
    (run.fail failure).Ends (.refused diagnostic) := by
  rw [Failure.IsReported, carried, Option.map_some, Option.some.injEq] at isReported
  rw [Compilation.fail, carried]
  exact ⟨isOpen.fatal, isOpen.bag.items_add diagnostic, isReported, isOpen.assembly⟩

/-- A cancellation within a phase ends an open run. -/
theorem IsOpen.ends_interrupted
    (isOpen : run.IsOpen) :
    (run.fail .cancelled).Ends .cancelled :=
  ⟨rfl, isOpen.bag.items, isOpen.assembly⟩

variable
    {listing : Listing}

/-- Pruning leaves an open run open, whether what remains is checked or not. -/
theorem IsOpen.afterPruning
    (isOpen : run.IsOpen)
    {options : CompileOptions}
    {pruned : Pruned}
    (valid : pruned.validate? listing = none) :
    (afterPruning options listing pruned run).IsOpen := by
  have noFinding : (if options.verifyListing then pruned.validate? listing else none) = none := by
    rw [valid, ite_self]
  unfold Compilation.afterPruning
  simp only [noFinding]
  exact ⟨isOpen.fatal, isOpen.bag, isOpen.assembly⟩

/-- What a lowered program is emitted to is text, or a failure that is reported. -/
theorem emit_decided
    {program : Program}
    (lowered : program.lower = .ok listing) :
    (∃ text, listing.emit (Pruned.ofListing listing).nodes = .ok text ∧
      Bytes.ofString text ≠ []) ∨
      ∃ failure,
        listing.emit (Pruned.ofListing listing).nodes = .error failure ∧ failure.IsReported := by
  cases emitted : listing.emit (Pruned.ofListing listing).nodes with
  | ok text =>
      obtain ⟨file, _, rfl⟩ := AssemblyFile.takes_of_emit emitted
      exact .inl ⟨_, rfl, file.text_nonempty listing⟩
  | error failure =>
      obtain ⟨declared, final, parts, row⟩ := Lower.lower_row lowered
      have refusal : Emit.Refusal True failure :=
        row.refusal (.inr rfl) (fun _ _ _ _ _ _ => trivial) emitted
      exact .inr ⟨failure, rfl, refusal.1⟩

/-- A source from which a listing and a text are made. -/
structure Makes (path : String) (source : Bytes) (listing : Listing) (text : String) : Prop where
  readable : (Reading.ofSource path source).problem = none
  lowered : (Reading.ofSource path source).program.lower = .ok listing
  emitted : listing.emit (Pruned.ofListing listing).nodes = .ok text

/-- Why a compilation ends as it does. -/
inductive Reason (path : String) (source : Bytes) (cancelled : Cancellation) : Ending → Prop where
  | made {listing : Listing} {text : String} (makes : Makes path source listing text) :
      Reason path source cancelled (.made (Bytes.ofString text))
  | misread {report : Report} (problem : (Reading.ofSource path source).problem = some report) :
      Reason path source cancelled (.refused (report.diagnostic path))
  | unlowered {failure : Failure} {diagnostic : Diagnostic}
      (readable : (Reading.ofSource path source).problem = none)
      (failed : (Lowering.ofProgram (Reading.ofSource path source).program
        fun number => cancelled (.function number)).result = .error failure)
      (carried : failure.diagnostic? = some diagnostic) :
      Reason path source cancelled (.refused diagnostic)
  | unemitted {listing : Listing} {failure : Failure} {diagnostic : Diagnostic}
      (readable : (Reading.ofSource path source).problem = none)
      (lowered : (Reading.ofSource path source).program.lower = .ok listing)
      (failed : listing.emit (Pruned.ofListing listing).nodes = .error failure)
      (carried : failure.diagnostic? = some diagnostic) :
      Reason path source cancelled (.refused diagnostic)
  | cancelled {checkpoint : Checkpoint} (isCancelled : cancelled checkpoint = true) :
      Reason path source cancelled .cancelled

/-- Open runs end in one way under all options, and for some reason. -/
def Decides (reason : Ending → Prop)
    (proceed : CompileOptions → Compilation → Compilation) : Prop :=
  ∃ ending, (∀ options run, IsOpen run → (proceed options run).Ends ending) ∧ reason ending

/-- Pruning and emission end open runs in a way that the listing decides. -/
theorem fromListing_decides
    {program : Program}
    {listing : Listing}
    {reason : Ending → Prop}
    (lowered : program.lower = .ok listing)
    (made : ∀ text, listing.emit (Pruned.ofListing listing).nodes = .ok text →
      reason (.made (Bytes.ofString text)))
    (refused : ∀ failure diagnostic,
      listing.emit (Pruned.ofListing listing).nodes = .error failure →
        failure.diagnostic? = some diagnostic → reason (.refused diagnostic))
    (ended : ∀ checkpoint, cancelled checkpoint = true → reason .cancelled) :
    Decides reason fun options run => run.fromListing options cancelled listing := by
  have valid := Lower.remaining_validates lowered
  by_cases beforePruning : cancelled (.phase .prune) = true
  · refine ⟨.cancelled, fun options run isOpen => ?_, ended _ beforePruning⟩
    exact (isOpen.ends_cancelled beforePruning _).inPhase nofun _ _
  have pruned : ∀ options run, IsOpen run →
      ∃ between : Compilation, between.IsOpen ∧
        run.inPhase .prune cancelled (afterPruning options listing (.ofListing listing)) =
          between :=
    fun options run isOpen => ⟨_, (isOpen.afterPruning valid).finish .prune,
      isOpen.inPhase_eq beforePruning _⟩
  by_cases beforeEmission : cancelled (.phase .emit) = true
  · refine ⟨.cancelled, fun options run isOpen => ?_, ended _ beforeEmission⟩
    obtain ⟨between, stillOpen, same⟩ := pruned options run isOpen
    unfold fromListing
    simp only [same]
    exact stillOpen.ends_cancelled beforeEmission _
  -- What is left is emission, which the nodes decide unless it is interrupted.
  let emission := Emission.ofNodes listing (Pruned.ofListing listing).nodes
    fun number => cancelled (.node number)
  have emits : ∀ ending, (∀ between : Compilation, between.IsOpen →
      (afterEmission listing emission between).Ends ending) →
        ∀ options run, IsOpen run → (run.fromListing options cancelled listing).Ends ending := by
    intro ending ends options run isOpen
    obtain ⟨between, stillOpen, same⟩ := pruned options run isOpen
    unfold fromListing
    simp only [same, stillOpen.inPhase_eq beforeEmission]
    exact (ends between stillOpen).finish .emit
  have isOpened : ∀ between : Compilation, between.IsOpen →
      IsOpen { between with emitted := some (listing, emission.milestones) } :=
    fun _ isOpen => ⟨isOpen.fatal, isOpen.bag, isOpen.assembly⟩
  rcases Emission.ofNodes_uninterrupted (Pruned.ofListing listing).nodes with
    same | ⟨isCancelled, number, isInterrupted⟩
  · rcases emit_decided lowered with ⟨text, emitted, nonempty⟩ | ⟨failure, emitted, isReported⟩
    · refine ⟨.made (Bytes.ofString text), emits _ fun between isOpen => ?_, made text emitted⟩
      rw [afterEmission, same.trans emitted]
      exact ⟨isOpen.fatal, isOpen.bag.items, rfl, nonempty⟩
    · obtain ⟨diagnostic, carried, _⟩ := Option.map_eq_some_iff.mp isReported
      refine ⟨.refused diagnostic, emits _ fun between isOpen => ?_,
        refused failure diagnostic emitted carried⟩
      rw [afterEmission, same.trans emitted]
      exact (isOpened between isOpen).ends_fail carried isReported
  · refine ⟨.cancelled, emits _ fun between isOpen => ?_, ended _ isInterrupted⟩
    rw [afterEmission, isCancelled]
    exact (isOpened between isOpen).ends_interrupted

/-- The phases behind parsing end open runs in a way that the program decides. -/
theorem fromProgram_decides
    {program : Program}
    {reason : Ending → Prop}
    (made : ∀ listing text, program.lower = .ok listing →
      listing.emit (Pruned.ofListing listing).nodes = .ok text →
        reason (.made (Bytes.ofString text)))
    (unlowered : ∀ failure diagnostic,
      (Lowering.ofProgram program fun number => cancelled (.function number)).result =
          .error failure →
        failure.diagnostic? = some diagnostic → reason (.refused diagnostic))
    (unemitted : ∀ listing failure diagnostic, program.lower = .ok listing →
      listing.emit (Pruned.ofListing listing).nodes = .error failure →
        failure.diagnostic? = some diagnostic → reason (.refused diagnostic))
    (ended : ∀ checkpoint, cancelled checkpoint = true → reason .cancelled) :
    Decides reason fun options run => run.fromProgram options cancelled program := by
  by_cases beforeLowering : cancelled (.phase .lower) = true
  · refine ⟨.cancelled, fun options run isOpen => ?_, ended _ beforeLowering⟩
    have ends := isOpen.ends_cancelled beforeLowering
      (afterLowering (.ofProgram program fun number => cancelled (.function number)))
    unfold fromProgram
    dsimp only
    split
    · exact (ends.inPhase nofun _ _).inPhase nofun _ _
    · exact ends
  have isOpened : ∀ (run : Compilation) (started : List String), IsOpen run →
      IsOpen { run with lowered := some started } :=
    fun _ _ isOpen => ⟨isOpen.fatal, isOpen.bag, isOpen.assembly⟩
  cases lowered : (Lowering.ofProgram program fun number => cancelled (.function number)).result with
  | ok listing =>
      have lowers := Lowering.lower_of_ofProgram lowered
      obtain ⟨ending, ends, why⟩ := @fromListing_decides cancelled program listing reason lowers
        (fun text => made listing text lowers)
        (fun failure diagnostic => unemitted listing failure diagnostic lowers) ended
      refine ⟨ending, fun options run isOpen => ?_, why⟩
      unfold fromProgram
      simp only [lowered, isOpen.inPhase_eq beforeLowering, afterLowering]
      exact ends options _ ((isOpened run _ isOpen).finish .lower)
  | error failure =>
      have refused : ∀ ending, (∀ between : Compilation, between.IsOpen →
          (between.fail failure).Ends ending) →
            ∀ options run, IsOpen run → (run.fromProgram options cancelled program).Ends ending := by
        intro ending ends options run isOpen
        unfold fromProgram
        simp only [lowered, isOpen.inPhase_eq beforeLowering, afterLowering]
        exact (ends _ (isOpened run _ isOpen)).finish .lower
      rcases Lower.ofProgram_spares lowered with ⟨isReported, -⟩ | ⟨rfl, number, isInterrupted⟩
      · obtain ⟨diagnostic, carried, _⟩ := Option.map_eq_some_iff.mp isReported
        exact ⟨.refused diagnostic, refused _ fun between isOpen =>
          isOpen.ends_fail carried isReported, unlowered failure diagnostic lowered carried⟩
      · exact ⟨.cancelled, refused _ fun between isOpen => isOpen.ends_interrupted,
          ended _ isInterrupted⟩

/-- A compilation ends in a way that the source decides, and for a reason. -/
theorem ofSource_ends
    (path : String)
    (source : Bytes) :
    ∃ ending,
      (∀ options, (ofSource path source options cancelled).Ends ending) ∧
        Reason path source cancelled ending := by
  by_cases beforeParsing : cancelled (.phase .parse) = true
  · refine ⟨.cancelled, fun options => ?_, .cancelled beforeParsing⟩
    have ends := (isOpen_start path options).ends_cancelled beforeParsing
      (parsed (Reading.ofSource path source))
    unfold ofSource
    dsimp only
    rw [if_pos (ends.stopped (by rintro _ ⟨⟩))]
    exact ends
  have parses : ∀ options : CompileOptions,
      (start path options).inPhase .parse cancelled (parsed (Reading.ofSource path source)) =
        (parsed (Reading.ofSource path source) (start path options)).finish .parse :=
    fun options => (isOpen_start path options).inPhase_eq beforeParsing _
  cases problem : (Reading.ofSource path source).problem with
  | none =>
      have noDiagnostics : (Reading.ofSource path source).diagnostics = [] := by
        rw [Reading.diagnostics, problem]
        rfl
      have isOpen : ∀ options : CompileOptions,
          IsOpen ((parsed (Reading.ofSource path source) (start path options)).finish .parse) := by
        intro options
        refine ⟨rfl, ?_, rfl⟩
        show ((Bag.empty options.diagnosticLimit).addAll
          (Reading.ofSource path source).diagnostics).IsFresh
        rw [noDiagnostics]
        exact Bag.isFresh_empty _
      obtain ⟨ending, ends, why⟩ := @fromProgram_decides cancelled
        (Reading.ofSource path source).program (Reason path source cancelled)
        (fun listing text lowered emitted => .made ⟨problem, lowered, emitted⟩)
        (fun failure diagnostic => .unlowered problem)
        (fun listing failure diagnostic => .unemitted problem) (fun checkpoint => .cancelled)
      refine ⟨ending, fun options => ?_, why⟩
      unfold ofSource
      simp only [parses, (isOpen options).stopped, Bool.false_eq_true, ↓reduceIte]
      exact ends options _ (isOpen options)
  | some report =>
      have oneDiagnostic : (Reading.ofSource path source).diagnostics =
          [report.diagnostic path] := by
        rw [Reading.diagnostics, problem]
        rfl
      refine ⟨.refused (report.diagnostic path), fun options => ?_, .misread problem⟩
      have ends : ((parsed (Reading.ofSource path source) (start path options)).finish .parse).Ends
          (.refused (report.diagnostic path)) := by
        refine ⟨rfl, ?_, rfl, rfl⟩
        show ((Bag.empty options.diagnosticLimit).addAll
          (Reading.ofSource path source).diagnostics).items = _
        rw [oneDiagnostic]
        exact (Bag.isFresh_empty _).items_add _
      unfold ofSource
      simp only [parses, ends.stopped (by rintro _ ⟨⟩), ↓reduceIte]
      exact ends

/-- A compilation ends in a way that the source decides. -/
theorem ofSource_decides
    (path : String)
    (source : Bytes) :
    ∃ ending,
      (∀ options, (ofSource path source options cancelled).Ends ending) ∧
        (ending = .cancelled → ∃ checkpoint, cancelled checkpoint = true) := by
  obtain ⟨ending, ends, why⟩ := @ofSource_ends cancelled path source
  refine ⟨ending, ends, ?_⟩
  rintro rfl
  cases why with
  | cancelled isCancelled => exact ⟨_, isCancelled⟩

/--
A compilation ends in one of three ways: without a diagnostic and with assembly text, with one
diagnostic of error severity and no text, or cancelled and with neither. Which one it is does not
depend on what is asked for: the listing may be checked without a compilation being lost, and the
diagnostic is there whatever the limit of diagnostics is. A compilation is cancelled only at a
checkpoint.
-/
theorem compilation_ends_once
    (path : String)
    (source : Bytes)
    (cancelled : Cancellation) :
    ∃ ending,
      (∀ (options : CompileOptions) (other : Ending),
        (ofSource path source options cancelled).Ends other ↔ other = ending) ∧
      (ending = .cancelled → ∃ checkpoint, cancelled checkpoint = true) := by
  obtain ⟨ending, ends, isCancelled⟩ := @ofSource_decides cancelled path source
  refine ⟨ending, fun options other => ⟨fun endsOther => ?_, ?_⟩, isCancelled⟩
  · exact endsOther.unique (ends options)
  · rintro rfl
    exact ends options

end Compilation

end IlsCompiler
