import IlsCompiler.Proofs.Compilation.Endings

namespace IlsCompiler

/-!
# What a compilation makes in another file

The name of a file stands in its listing, but in nothing that is made of it. So a source that is
compiled without a problem is compiled to the same text, listing and removed functions wherever it
stands, and whatever else is asked for.
-/

namespace Listing

variable
    {listing : Listing}
    {file : String}

@[simp] theorem lookup?_within
    (id : VarId) :
    (listing.within file).lookup? id = listing.lookup? id :=
  rfl

@[simp] theorem describe_within :
    (listing.within file).describe = listing.describe := by
  have within : ∀ depth id,
      (listing.within file).describeWithin depth id = listing.describeWithin depth id := by
    intro depth
    induction depth with
    | zero => exact fun _ => rfl
    | succ depth inductionHypothesis =>
        intro id
        simp only [describeWithin, lookup?_within, inductionHypothesis]
  funext id
  exact within _ id

@[simp] theorem describeValue_within :
    (listing.within file).describeValue = listing.describeValue := by
  funext value
  simp only [describeValue, describe_within]

@[simp] theorem nodeText_within :
    (listing.within file).nodeText = listing.nodeText := by
  funext node
  simp only [nodeText, declarationText, describe_within, describeValue_within, lookup?_within]

theorem dump_within
    (nodes : List Node) :
    (listing.within file).dump nodes = listing.dump nodes := by
  have line : (listing.within file).nodeLine = listing.nodeLine := by
    funext node
    cases node <;> simp only [nodeLine, nodeText_within]
  rw [dump, dump, line]

theorem prune_within :
    Pruned.ofListing (listing.within file) = Pruned.ofListing listing :=
  rfl

end Listing

namespace Emit

variable
    {listing : Listing}
    {file : String}

/-- What can be asked for is made alike in every file, up to a depth. -/
structure Alike (listing : Listing) (file : String) (depth : Nat) : Prop where
  resolve : Emit.resolve (listing.within file) depth = Emit.resolve listing depth
  stored : Emit.stored (listing.within file) depth = Emit.stored listing depth
  temporary : Emit.temporary (listing.within file) depth = Emit.temporary listing depth
  element : Emit.element (listing.within file) depth = Emit.element listing depth
  userCall : Emit.userCall (listing.within file) depth = Emit.userCall listing depth

theorem alike
    (depth : Nat) :
    Alike listing file depth := by
  induction depth with
  | zero =>
      constructor <;> funext <;>
        simp only [Emit.resolve, Emit.stored, Emit.temporary, Emit.element, Emit.userCall]
  | succ depth inductionHypothesis =>
      obtain ⟨resolves, stores, temporaries, elements, calls⟩ := inductionHypothesis
      constructor
      · funext id scratch
        simp only [Emit.resolve, Listing.lookup?_within, Listing.describe_within, temporaries,
          elements, calls]
      · funext value
        simp only [Emit.stored, Listing.lookup?_within, resolves]
      · funext v name
        simp only [Emit.temporary, stores]
      · funext array index scratch
        simp only [Emit.element, Listing.lookup?_within, resolves]
      · funext call
        simp only [Emit.userCall, resolves]

theorem node_within :
    node (listing.within file) = node listing := by
  have alike : Alike listing file (depth listing) := Emit.alike _
  have sameDepth : depth (listing.within file) = depth listing := rfl
  have loads : load (listing.within file) = load listing := by
    funext reg id
    simp only [load, sameDepth, alike.resolve]
  have operands : operable (listing.within file) = operable listing := by
    funext id scratch
    simp only [operable, sameDepth, alike.resolve]
  have stores : storeValue (listing.within file) = storeValue listing := by
    funext target selected value
    simp only [storeValue, sameDepth, alike.stored, alike.element, Listing.lookup?_within,
      Listing.describe_within]
  have results : resultRegister (listing.within file) = resultRegister listing := by
    funext result
    simp only [resultRegister, sameDepth, alike.temporary, Listing.lookup?_within]
  have builtins : builtinCall (listing.within file) = builtinCall listing := by
    funext call
    simp only [builtinCall, exit, print, loads]
    rfl
  funext step
  cases step with
  | declare id line =>
      simp only [node, declare, sameDepth, alike.temporary, stores, Listing.lookup?_within]
  | assign target value type selected line =>
      simp only [node, assign, stores, Listing.lookup?_within, Listing.describe_within]
  | arith result left right op line => simp only [node, arith, divide, results, loads, operands]
  | compare left right line => simp only [node, compare, sameDepth, alike.resolve, operands]
  | call invoked => simp only [node, call, builtins, sameDepth, alike.userCall]
  | leave value line => simp only [node, leave, loads, Listing.lookup?_within]
  | _ => rfl

end Emit

namespace AssemblyFile

variable
    {listing : Listing}
    {file : String}

theorem step_within :
    step (listing.within file) = step listing := by
  funext made node
  simp only [step, Emit.node_within, addGlobal, Listing.lookup?_within, Listing.nodeText_within]

end AssemblyFile

variable
    {listing : Listing}
    {text : String}

/-- A listing from which a text is made gives the same text in every file. -/
theorem Listing.emit_within
    {nodes : List Node}
    (emitted : listing.emit nodes = .ok text)
    (file : String) :
    (listing.within file).emit nodes = .ok text := by
  have steps : ∀ number made,
      Emission.steps (listing.within file) (fun _ => false) number nodes made =
        Emission.steps listing (fun _ => false) number nodes made := by
    clear emitted
    induction nodes with
    | nil => exact fun _ _ => rfl
    | cons first rest inductionHypothesis =>
        intro number made
        simp only [Emission.steps, AssemblyFile.step_within, inductionHypothesis]
  unfold emit Emission.ofNodes at emitted ⊢
  rw [steps, show AssemblyFile.start (listing.within file) = .start listing from rfl]
  have finish : ∀ made, Emission.finish (listing.within file) made =
      Emission.finish listing made := fun _ => rfl
  simp only [finish]
  cases run : Emission.steps listing (fun _ => false) 0 nodes (.start listing) with
  | mk milestones result =>
      cases result with
      | error failure => simp [run] at emitted
      | ok made =>
          simp only [run] at emitted ⊢
          cases finished : Emission.finish listing made with
          | error failure => simp [finished] at emitted
          | ok written => simpa [finished] using emitted

variable
    {source : Bytes}
    {path : String}

/-- What is made of a source is made of it in every file. -/
theorem Compilation.Makes.within
    (makes : Compilation.Makes path source listing text)
    (file : String) :
    Compilation.Makes file source (listing.within file) text where
  readable := makes.readable
  lowered := Program.lower_within makes.lowered file
  emitted := Listing.emit_within makes.emitted file

namespace Compilation

/-- The outcome of a compilation that makes a listing and a text. -/
def made (path : String) (options : CompileOptions) (listing : Listing) (text : String) :
    Compiled :=
  { Compiled.start path options with
    assembly := Bytes.ofString text
    listing :=
      if options.keepListing then
        Bytes.ofString (listing.dump (Pruned.ofListing listing).nodes)
      else
        []
    removed := (Pruned.ofListing listing).removed.map Bytes.ofString }

theorem made_within
    (path file : String)
    (options : CompileOptions)
    (listing : Listing)
    (text : String) :
    made path options (listing.within file) text = made path options listing text := by
  simp only [made, Listing.prune_within, Listing.dump_within]

variable
    {run : Compilation}

/-- A compilation that is not cancelled goes through a phase unless something is wrong already. -/
theorem inPhase_never
    (goesOn : run.stopped = false)
    (phase : Phase)
    (work : Compilation → Compilation) :
    run.inPhase phase .never work = (work run).finish phase := by
  rw [inPhase, if_neg (by simp [goesOn]), if_neg (by simp [Cancellation.never])]

variable
    {options : CompileOptions}

/-- The phases behind lowering make what is asked for of a listing that gives a text. -/
theorem fromListing_of_emitted
    (fatal : run.fatal = none)
    (notFailed : run.compiled.failed = false)
    (valid : (Pruned.ofListing listing).validate? listing = none)
    (emitted : listing.emit (Pruned.ofListing listing).nodes = .ok text) :
    (run.fromListing options .never listing).fatal = none ∧
      (run.fromListing options .never listing).compiled =
        { run.compiled with
          assembly := Bytes.ofString text
          listing :=
            if options.keepListing then
              Bytes.ofString (listing.dump (Pruned.ofListing listing).nodes)
            else
              []
          removed := (Pruned.ofListing listing).removed.map Bytes.ofString } := by
  have noFinding : (if options.verifyListing then
      (Pruned.ofListing listing).validate? listing else none) = none := by
    rw [valid, ite_self]
  have emits : (Emission.ofNodes listing (Pruned.ofListing listing).nodes
      fun number => Cancellation.never (.node number)).result = .ok text := emitted
  have stillOpen : ∀ phases kept removed, stopped
      { run with
        compiled := { run.compiled with listing := kept, removed := removed }
        phases := phases } = false := by
    intro phases kept removed
    simp only [stopped, fatal, Option.isSome_none, Bool.false_or]
    exact notFailed
  have goesOn : run.stopped = false := by
    simp only [stopped, fatal, Option.isSome_none, Bool.false_or]
    exact notFailed
  unfold fromListing
  simp only [inPhase_never goesOn, afterPruning, noFinding, finish]
  rw [inPhase_never (stillOpen _ _ _)]
  simp only [afterEmission, emits, finish]
  exact ⟨fatal, trivial⟩

theorem ofSource_of_makes
    (makes : Makes path source listing text)
    (options : CompileOptions) :
    (ofSource path source options .never).fatal = none ∧
      (ofSource path source options .never).compiled = made path options listing text := by
  have noDiagnostics : (Reading.ofSource path source).diagnostics = [] := by
    rw [Reading.diagnostics, makes.readable]
    rfl
  have opens : parsed (Reading.ofSource path source) (start path options) = start path options := by
    rw [parsed, noDiagnostics]
    rfl
  have lowers : (Lowering.ofProgram (Reading.ofSource path source).program
      fun number => Cancellation.never (.function number)).result = .ok listing := makes.lowered
  have goesOn : (start path options).stopped = false := (isOpen_start path options).stopped
  have stillOpen : ((start path options).finish .parse).stopped = false :=
    ((isOpen_start path options).finish .parse).stopped
  unfold ofSource
  simp only [inPhase_never goesOn, opens]
  rw [if_neg (by simp [stillOpen])]
  unfold fromProgram
  simp only [lowers, inPhase_never stillOpen, afterLowering]
  exact fromListing_of_emitted rfl rfl (Lower.remaining_validates makes.lowered) makes.emitted

/-- A compilation that ends without a problem makes a listing and a text. -/
theorem exists_makes
    (fatal : (ofSource path source options .never).fatal = none)
    (notFailed : (ofSource path source options .never).compiled.failed = false) :
    ∃ listing text, Makes path source listing text := by
  obtain ⟨ending, ends, why⟩ := @ofSource_ends .never path source
  have ended := ends options
  cases ending with
  | made assembly =>
      cases why with
      | made makes => exact ⟨_, _, makes⟩
  | refused diagnostic =>
      obtain ⟨-, items, severity, -⟩ := ended
      simp [Compiled.failed, Bag.hasErrors, items, severity, Severity.isError] at notFailed
  | cancelled => cases fatal.symm.trans ended.1

end Compilation

end IlsCompiler
