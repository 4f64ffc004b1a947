import IlsCompiler.Proofs.Assembly.Rules
import IlsCompiler.Proofs.Lowering.ProgramTyping
import IlsCompiler.Proofs.Compilation.Endings

namespace IlsCompiler

/-!
# Where emission is refused

Most faults of emission are told without a line, and only those of a call for its line. A node gives
its line to a fault without one, so where emission refuses a lowered listing, it does so for a line
of the listing: what it has no line for is a fault of nodes that do not belong together.
-/

variable
    {line : Nat}
    {known : Nat → Prop}

theorem EmissionFault.isPlaced
    (fault : EmissionFault)
    (here : known line) :
    (fault.failure line).IsPlaced known :=
  ⟨_, line, _, rfl, here, by cases fault <;> nofun⟩

/-- The pending calls of a listing are told for known lines. -/
def Listing.TellsCalls (known : Nat → Prop) (listing : Listing) : Prop :=
  ∀ id v, listing.lookup? id = some v → ∀ line ∈ v.lines, known line

variable
    {listing : Listing}

theorem Listing.Sound.tellsCalls
    (sound : listing.Sound known) :
    listing.TellsCalls known := by
  intro id v found line member
  refine sound.lines id v.fixed (by simp [Listing.fixed?, found]) line ?_
  unfold Variable.lines at member ⊢
  cases storage : v.storage <;> simp_all [Variable.fixed, Storage.fixed]

namespace Emit

open Stateful

variable
    {known : Nat → Prop}
    {listing : Listing}

/-- A step whose failures are told for known lines or for none. -/
abbrev Told (known : Nat → Prop) (step : Emit α) : Prop :=
  AlwaysFailsWith (Failure.IsPlaced (orNone known)) step

theorem closed_failing
    (allowed : Failure → Prop) :
    Closed fun _ step => AlwaysFailsWith allowed step where
  pure := alwaysFailsWith_pure
  bind := alwaysFailsWith_bind
  read _ each := alwaysFailsWith_bind alwaysFailsWith_get fun _ code _ _ => each code
  ins _ := alwaysFailsWith_modify _
  countPushed _ := alwaysFailsWith_modify _

theorem told_fail
    (fault : EmissionFault)
    (here : orNone known line) :
    Told known (fail fault line : Emit α) :=
  fun _ => failsWith_throw (fault.isPlaced here)

theorem told_get
    {next : FunctionCode → Emit α}
    (each : ∀ code, Told known (next code)) :
    Told known (get >>= next) :=
  alwaysFailsWith_bind alwaysFailsWith_get fun _ code _ _ => each code

theorem told_namedOperand
    (v : Variable)
    (name : String)
    (isGlobal isParam : Bool)
    (position : Nat) :
    Told known (namedOperand v name isGlobal isParam position) := by
  unfold namedOperand
  split
  · exact told_fail _ (.inl rfl)
  split
  · exact told_fail _ (.inl rfl)
  split
  · exact alwaysFailsWith_pure _
  unfold slotOperand
  split
  · exact alwaysFailsWith_pure _
  refine told_get fun code => ?_
  split
  next failure refused =>
    -- A local that gets no slot is told for no line.
    unfold StackFrame.slot at refused
    split at refused
    · cases refused
    dsimp only at refused
    split at refused
    · cases refused
    · cases refused
      exact fun _ => failsWith_throw ((EmissionFault.noSlot _ _ _).isPlaced (.inl rfl))
  next => exact alwaysFailsWith_bind (alwaysFailsWith_set _) fun _ _ _ _ => alwaysFailsWith_pure _

theorem told_takeRegister
    (name : String)
    (v : Variable) :
    Told known (takeRegister name v) := by
  refine told_get fun code => ?_
  split
  · exact told_fail _ (.inl rfl)
  · exact alwaysFailsWith_bind (alwaysFailsWith_set _) fun _ _ _ _ => alwaysFailsWith_pure _

/-- What is refused is told for known lines if calls are. -/
def telling (known : Nat → Prop) : Rule :=
  .closed (fun _ => True) (fun call => known call.line) (orNone known) fun _ step => Told known step

theorem telling_lawful
    (tellsCalls : listing.TellsCalls known) :
    (telling known).Lawful listing := by
  refine Rule.closed_lawful (closed_failing _) ⟨fun _ _ => trivial, fun _ _ _ _ => trivial,
    fun _ _ _ => trivial, fun {id v function call} _ found storage => ?_⟩
    (.inl rfl) .inr told_fail (fun {depth call} here resolves => ?_)
    (fun _ _ _ => told_takeRegister _ _) told_namedOperand
  · exact tellsCalls id v found _ (by simp [Variable.lines, storage])
  refine ((closed_failing _).sequences.userCall (fun _ _ _ => trivial)
    (fun _ => ⟨told_fail _ (.inr here), fun _ _ _ _ => trivial⟩)
    ⟨alwaysFailsWith_modify _, fun _ _ _ _ => trivial⟩ (fun rest => ⟨?_, fun _ _ _ _ => trivial⟩)
    fun _ _ => ⟨resolves trivial, fun _ _ _ _ => trivial⟩).1
  refine told_get fun code => ?_
  split
  · exact alwaysFailsWith_pure _
  · exact alwaysFailsWith_bind (alwaysFailsWith_modify _) fun _ _ _ _ => rest.1

/-- What is told at a node is told for its line where there was none. -/
theorem placed_atLine
    {step : Emit α}
    (here : known line)
    (told : Told known step) :
    AlwaysFailsWith (Failure.IsPlaced known) (atLine line step) := by
  intro before failure failed
  unfold atLine at failed
  cases run : step before with
  | ok result => simp [run] at failed
  | error other =>
      simp only [run, Except.error.injEq] at failed
      subst failed
      exact (told before other run).atLine here

/-- A node is refused for a known line if its own lines are known. -/
theorem placed_node
    (tellsCalls : listing.TellsCalls known)
    {step : Node}
    (lines : ∀ line ∈ step.lines, known line) :
    AlwaysFailsWith (Failure.IsPlaced known) (node listing step) := by
  refine ((telling_lawful tellsCalls).node (closed_failing _).sequences
    ⟨alwaysFailsWith_modify _, fun _ _ _ _ => trivial⟩
    ⟨fun _ _ => trivial, fun _ _ _ _ => trivial, fun {call} isCall _ => ?_⟩
    (fun line member => .inr (lines line member))
    (fun member told => ⟨placed_atLine (lines _ member) told.1, fun _ _ _ _ => trivial⟩)
    (fun {line fault} member => ⟨fun _ => failsWith_throw (fault.isPlaced (lines _ member)),
      fun _ _ _ _ => trivial⟩)
    fun _ => ⟨alwaysFailsWith_modify _, fun _ _ _ _ => trivial⟩).1
  exact lines _ (by simp [isCall, Node.lines])

end Emit

/-!
## The nodes of a program

Outside of functions, and behind the last node, emission can find fault with the row of nodes
itself, for no line. The nodes of a lowered program give no reason for it.
-/

variable
    {failure : Failure}

namespace AssemblyFile

variable
    {known : Nat → Prop}
    {listing : Listing}
    {file : AssemblyFile}

theorem declareSymbol_placed
    {name : String}
    (here : known line)
    (refused : file.declareSymbol name line = .error failure) :
    failure.IsPlaced known := by
  unfold declareSymbol at refused
  split at refused
  · cases refused
    exact EmissionFault.isPlaced _ here
  · split at refused
    · cases refused
      exact EmissionFault.isPlaced _ here
    · cases refused

theorem addGlobal_placed
    {id : VarId}
    (here : known line)
    (refused : file.addGlobal listing id line = .error failure) :
    failure.IsPlaced known := by
  unfold addGlobal at refused
  split at refused
  next =>
    split at refused
    · cases refused
      exact EmissionFault.isPlaced _ here
    split at refused
    · cases refused
      exact EmissionFault.isPlaced _ here
    split at refused
    · cases refused
      exact EmissionFault.isPlaced _ here
    cases declared : file.declareSymbol _ line with
    | error other =>
        rw [declared] at refused
        cases refused
        exact declareSymbol_placed here declared
    | ok symbols => simp [declared, bind, Except.bind, pure, Except.pure] at refused
  next =>
    cases refused
    exact EmissionFault.isPlaced _ here

/-- A node is refused for a known line, or because it stands where it may not. -/
theorem step_placed
    {node : Node}
    (tellsCalls : listing.TellsCalls known)
    (lines : ∀ line ∈ node.lines, known line)
    (refused : file.step listing node = .error failure) :
    failure.IsPlaced known ∨ failure.code ∈ Lower.nodeFaults := by
  unfold step at refused
  cases current : file.current with
  | none =>
      simp only [current] at refused
      split at refused
      next function =>
        left
        cases declared : file.declareSymbol function.name function.line with
        | error other =>
            simp only [openFunction, declared] at refused
            cases refused
            exact declareSymbol_placed (lines _ (by simp [Node.lines])) declared
        | ok symbols =>
            simp [openFunction, declared, bind, Except.bind, pure, Except.pure] at refused
      next id line => exact .inl (addGlobal_placed (lines _ (by simp [Node.lines])) refused)
      next =>
        cases refused
        exact .inr (show Code.misplacedStatement ∈ Lower.nodeFaults by decide)
  | some code =>
      simp only [current] at refused
      split at refused
      · cases refused
      split at refused
      next other run =>
        cases refused
        exact .inl (Emit.placed_node tellsCalls lines code failure run)
      next => cases refused

end AssemblyFile

theorem Emission.steps_placed
    {interrupted : Nat → Bool}
    {number : Nat}
    {nodes : List Node}
    {file : AssemblyFile}
    (tellsCalls : listing.TellsCalls known)
    (lines : ∀ node ∈ nodes, ∀ line ∈ node.lines, known line)
    (refused : (steps listing interrupted number nodes file).2 = .error failure) :
    failure = .cancelled ∨ failure.IsPlaced known ∨ failure.code ∈ Lower.nodeFaults := by
  induction nodes generalizing number file with
  | nil => cases refused
  | cons first rest inductionHypothesis =>
      rw [List.forall_mem_cons] at lines
      rw [steps] at refused
      split at refused
      · cases refused
        exact .inl rfl
      split at refused
      next other run =>
        cases refused
        exact .inr (AssemblyFile.step_placed tellsCalls lines.1 run)
      next after run => exact inductionHypothesis lines.2 refused

namespace Lower

variable
    {known : Nat → Prop}
    {program : Program}
    {listing : Listing}

/-- Emission of a lowered program is refused for a known line, in the file of the listing. -/
theorem emit_placed
    (sound : listing.Sound known)
    (lines : ∀ node ∈ listing.nodes.toList, ∀ line ∈ node.lines, known line)
    (lowered : program.lower = .ok listing)
    (refused : listing.emit (Pruned.ofListing listing).nodes = .error failure) :
    ∃ inner : Failure, inner.IsPlaced known ∧ failure = inner.inFile listing.file := by
  obtain ⟨declared, final, parts, row⟩ := lower_row lowered
  have refusal : Emit.Refusal True failure :=
    row.refusal (.inr rfl) (fun _ _ _ _ _ _ => trivial) refused
  have noNodeFault : failure.code ∉ nodeFaults := by
    rcases refusal.2 with same | same | same | ⟨same, _⟩ <;> rw [same] <;> decide
  have keptLines : ∀ node ∈ (Pruned.ofListing listing).nodes, ∀ line ∈ node.lines, known line := by
    intro node member
    refine lines node ?_
    rw [row.pruned (.inr rfl)] at member
    rw [row.nodes_eq, List.mem_append]
    refine (List.mem_append.mp member).imp_right fun isKept => ?_
    obtain ⟨part, isPart, isNode⟩ := List.mem_flatMap.mp isKept
    exact List.mem_flatMap.mpr ⟨part, (List.mem_filter.mp isPart).1, isNode⟩
  unfold Listing.emit Emission.ofNodes at refused
  cases run : Emission.steps listing (fun _ => false) 0 (Pruned.ofListing listing).nodes
      (.start listing) with
  | mk milestones result =>
      cases result with
      | error other =>
          simp only [run, Except.error.injEq] at refused
          subst refused
          rw [Failure.code_inFile] at noNodeFault
          rcases Emission.steps_placed sound.tellsCalls keptLines (congrArg Prod.snd run) with
            rfl | isPlaced | isFault
          · cases refusal.1
          · exact ⟨other, isPlaced, rfl⟩
          · exact (noNodeFault isFault).elim
      | ok file =>
          cases current : file.current with
          | none => simp [run, Emission.finish, current] at refused
          | some code =>
              simp only [run, Emission.finish, current, Except.error.injEq] at refused
              subst refused
              rw [Failure.code_inFile] at noNodeFault
              exact (noNodeFault (show Code.unresolvedOperand ∈ nodeFaults by decide)).elim

end Lower

/-!
## Where compilations are refused

A diagnostic says where it is: in which file and on which of its lines. Only a missing entry
function is missing on no line.
-/

/-- A diagnostic is placed in a file, on one of some lines or without one for a missing entry. -/
def Diagnostic.IsPlacedIn (file : String) (known : Nat → Prop) (diagnostic : Diagnostic) : Prop :=
  diagnostic.file = file ∧
    if diagnostic.code = .missingEntry then
      diagnostic.line = 0
    else
      ∃ line : Nat, known line ∧ diagnostic.line = line

variable
    {diagnostic : Diagnostic}
    {file : String}

theorem Diagnostic.isPlacedIn_of
    (isFile : diagnostic.file = file)
    (isLine : diagnostic.line = line)
    (here : known line)
    (other : diagnostic.code ≠ .missingEntry) :
    diagnostic.IsPlacedIn file known := by
  refine ⟨isFile, ?_⟩
  rw [if_neg other]
  exact ⟨line, here, isLine⟩

namespace Failure

variable
    {known : Nat → Prop}
    {failure : Failure}

/-- The diagnostic of a failure is placed but for its file. -/
def Tells (known : Nat → Prop) (failure : Failure) : Prop :=
  ∀ diagnostic, failure.diagnostic? = some diagnostic → diagnostic.IsPlacedIn "" known

theorem IsPlaced.tells
    (isPlaced : failure.IsPlaced known) :
    failure.Tells known := by
  obtain ⟨code, line, message, rfl, here, other⟩ := isPlaced
  rintro diagnostic ⟨⟩
  exact Diagnostic.isPlacedIn_of rfl rfl here other

theorem tells_missingEntry :
    (LoweringFault.missingEntry.failure 0).Tells known := by
  rintro diagnostic ⟨⟩
  exact ⟨rfl, rfl⟩

theorem Tells.inFile
    (tells : failure.Tells known)
    (carried : (failure.inFile file).diagnostic? = some diagnostic) :
    diagnostic.IsPlacedIn file known := by
  rw [Failure.inFile, diagnostic?_mapDiagnostic] at carried
  obtain ⟨inner, isInner, rfl⟩ := Option.map_eq_some_iff.mp carried
  obtain ⟨noFile, line⟩ := tells inner isInner
  rw [Diagnostic.inFile, if_pos noFile]
  exact ⟨rfl, line⟩

end Failure

namespace Lower

variable
    {known : Nat → Prop}
    {interrupted : Nat → Bool}

/-- Bodies of declared functions are refused for one of their lines, or because of a label. -/
theorem bodies_placed
    {number : Nat}
    {stmts : List Stmt}
    {before : LoweringState}
    (declared : Declared stmts before.listing)
    (lines : ∀ line ∈ linesOfBody stmts, known line)
    (refused : (Lowering.bodies interrupted number stmts before).2 = .error failure) :
    failure.Tells known ∨ failure.code = .duplicateLabel := by
  induction stmts generalizing before number with
  | nil => cases refused
  | cons first rest inductionHypothesis =>
      rw [linesOfBody, List.forall_mem_append] at lines
      cases first with
      | declare line name type initial => exact inductionHypothesis declared.tail lines.2 refused
      | function line name params result bodyLine body =>
          rw [Lowering.bodies] at refused
          split at refused
          · cases refused
            exact .inl (by rintro _ ⟨⟩)
          obtain ⟨signature, known_, parameters, -, -, -, -, here⟩ :=
            declared (List.mem_cons_self ..)
          obtain ⟨lowered, isLowered, rfl⟩ := Option.map_eq_some_iff.mp known_
          rw [isLowered] at refused
          have inside := lines.1
          simp only [Stmt.lines, List.forall_mem_cons, List.forall_mem_append] at inside
          cases run : functionBody lowered.signature body before with
          | error other =>
              simp only [run, Except.error.injEq] at refused
              subst refused
              have confined : Confined (Failure.IsPlaceable known)
                  (functionBody lowered.signature body) :=
                confined_functionBody (here.symm ▸ inside.1) inside.2.2
              rcases confined.fails before other run with isPlaced | ⟨label, rfl⟩
              · exact .inl isPlaced.tells
              · exact .inr rfl
          | ok pair =>
              simp only [run] at refused
              have grown := (functionBody_tags parameters run).1
              exact inductionHypothesis (Declared.grown grown declared.tail) lines.2 refused
      | _ =>
          cases refused
          refine .inl (Failure.IsPlaced.tells ⟨_, _, _, rfl, lines.1 _ ?_, by rintro ⟨⟩⟩)
          exact Stmt.line_mem_lines _

variable
    {program : Program}

/-- Lowering is refused for a line of the program in its file, or for want of an entry function. -/
theorem ofProgram_placed
    (lines : ∀ line ∈ linesOfBody program.statements, known line)
    (refused : (Lowering.ofProgram program interrupted).result = .error failure)
    (carried : failure.diagnostic? = some diagnostic) :
    diagnostic.IsPlacedIn program.file known := by
  have spares := ofProgram_spares refused
  unfold Lowering.ofProgram at refused
  cases first : declarations program (start program.file) with
  | error other =>
      simp only [first, Except.error.injEq] at refused
      subst refused
      have confined : Confined (Failure.Tells known) (declarations program) :=
        confined_declarations
          (fun line inside failure isFault =>
            (admits_isPlaced (lines line inside) failure isFault).tells)
          Failure.tells_missingEntry
      exact (confined.fails _ other first).inFile carried
  | ok pair =>
      obtain ⟨_, declared⟩ := pair
      obtain ⟨globals, globalsLowered, functionsDeclared, _⟩ := declarations_ok first
      have ready := ready_of_passes globalsLowered functionsDeclared
      cases run : Lowering.bodies interrupted 0 program.statements declared with
      | mk started result =>
          cases result with
          | ok final => simp [first, run] at refused
          | error other =>
              simp only [first, run, Except.error.injEq] at refused
              subst refused
              rcases bodies_placed ready.functions lines (congrArg Prod.snd run) with
                tells | isLabel
              · exact tells.inFile carried
              · rw [← Failure.code_inFile program.file other] at isLabel
                exact (spares.code_ne isLabel).elim

/-- A listing is in the file of its program. -/
theorem file_of_lower
    (lowered : program.lower = .ok listing) :
    listing.file = program.file := by
  have again : program.lower = .ok (listing.within program.file) :=
    Program.lower_within lowered program.file
  rw [lowered, Except.ok.injEq] at again
  rw [again]
  rfl

end Lower

variable
    {source : Bytes}

/-- No report about a text is one of a missing entry function. -/
theorem Reading.Cut.code_ne
    {statements : List Stmt}
    {report : Report}
    (cut : Reading.Cut source statements report) :
    report.code ≠ .missingEntry := by
  obtain ⟨_, rest, _, _, _, _, _, _, blames⟩ := cut
  rcases blames with ⟨lexeme, _, isReport⟩ | ⟨fault, line, rfl⟩
  · obtain ⟨fault, _, rfl⟩ := Option.map_eq_some_iff.mp isReport
    cases fault <;> nofun
  · cases fault with
    | expected item found => cases item <;> nofun
    | unclosed brackets => cases brackets <;> nofun
    | _ => nofun

namespace Compilation

theorem Reason.isPlacedIn
    {path : String}
    {cancelled : Cancellation}
    (reason : Reason path source cancelled (.refused diagnostic)) :
    diagnostic.IsPlacedIn path source.IsLine := by
  have outcome := Reading.ofSource_outcome path source
  cases reason with
  | @misread report problem =>
      rw [problem] at outcome
      exact Diagnostic.isPlacedIn_of rfl rfl outcome.2 outcome.1.code_ne
  | unlowered readable failed carried =>
      rw [readable] at outcome
      exact Lower.ofProgram_placed (Reading.tree_of_whole outcome).2 failed carried
  | unemitted readable lowered failed carried =>
      rw [readable] at outcome
      obtain ⟨written, lines⟩ := Reading.tree_of_whole outcome
      obtain ⟨sound, -, nodeLines⟩ := Lower.lower_sound written lines lowered
      obtain ⟨inner, isPlaced, rfl⟩ := Lower.emit_placed sound nodeLines lowered failed
      rw [Lower.file_of_lower lowered] at carried
      exact isPlaced.tells.inFile carried

/--
Every diagnostic of a compilation says where it is, whichever phase it comes from: its file is the
path, and its line is one of the lines of the source. Only a missing entry function is reported
without a line.
-/
theorem diagnostics_placed
    (path : String)
    (source : Bytes)
    (options : CompileOptions)
    (cancelled : Cancellation)
    {diagnostic : Diagnostic}
    (reported : diagnostic ∈ (ofSource path source options cancelled).compiled.bag.items) :
    diagnostic.file = path ∧
      if diagnostic.code = .missingEntry then
        diagnostic.line = 0
      else
        1 ≤ diagnostic.line ∧ diagnostic.line ≤ 1 + source.count Cursor.newline := by
  obtain ⟨ending, ends, reason⟩ := @ofSource_ends cancelled path source
  have ended := ends options
  cases ending with
  | made assembly =>
      rw [ended.2.1] at reported
      cases reported
  | cancelled =>
      rw [ended.2.1] at reported
      cases reported
  | refused other =>
      rw [ended.2.1, List.mem_singleton] at reported
      subst reported
      obtain ⟨isFile, isLine⟩ := reason.isPlacedIn
      refine ⟨isFile, ?_⟩
      by_cases isMissing : diagnostic.code = .missingEntry
      · rw [if_pos isMissing] at isLine ⊢
        exact isLine
      · rw [if_neg isMissing] at isLine ⊢
        obtain ⟨line, ⟨positive, bounded⟩, isNumber⟩ := isLine
        rw [isNumber]
        exact ⟨Int.ofNat_le.mpr positive, Int.ofNat_le.mpr bounded⟩

/-- A text with a global variable on its third line that emission does not support. -/
def globalStringSource : Bytes :=
  Bytes.ofString "fn main()\n{ }\ng: str = \"a\";\n"

/-- A text of one line without an entry function. -/
def helperSource : Bytes :=
  Bytes.ofString "fn helper() { }"

theorem globalStringSource_placed :
    (∃ diagnostic ∈ (ofSource "t.ils" globalStringSource {} .never).compiled.bag.items,
      diagnostic.code = .unsupportedFeature ∧ diagnostic.file = "t.ils" ∧
        1 ≤ diagnostic.line ∧ diagnostic.line ≤ 4) ∧
      ∃ diagnostic ∈ (ofSource "t.ils" helperSource {} .never).compiled.bag.items,
        diagnostic.code = .missingEntry ∧ diagnostic.line = 0 := by
  have codes : ∀ {source : Bytes} {code : Code},
      (ofSource "t.ils" source {} .never).compiled.bag.items.map Diagnostic.code = [code] →
        ∃ diagnostic ∈ (ofSource "t.ils" source {} .never).compiled.bag.items,
          diagnostic.code = code := by
    intro source code same
    exact List.mem_map.mp (same ▸ List.mem_singleton.mpr rfl)
  obtain ⟨unsupported, isReported, isCode⟩ :=
    @codes globalStringSource .unsupportedFeature (by decide +kernel)
  obtain ⟨missing, isToldOf, isMissing⟩ := @codes helperSource .missingEntry (by decide +kernel)
  have placed := diagnostics_placed "t.ils" globalStringSource {} .never isReported
  have unplaced := diagnostics_placed "t.ils" helperSource {} .never isToldOf
  rw [isCode, if_neg (by decide),
    show globalStringSource.count Cursor.newline = 3 by decide +kernel] at placed
  rw [if_pos isMissing] at unplaced
  exact ⟨⟨unsupported, isReported, isCode, placed⟩, missing, isToldOf, isMissing, unplaced.2⟩

end Compilation

end IlsCompiler
