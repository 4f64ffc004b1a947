import IlsCompiler.Proofs.Lowering.FreshLabels
import IlsCompiler.Proofs.Lowering.FunctionSections

namespace IlsCompiler

/-!
# Labels of whole programs

A function takes a number for its own labels too, unless it is the entry function, and there is
one entry function. So no label is set twice in a program, and none is refused.
-/

namespace Lower

open LoweringState Stateful

variable
    {own : LabelName → Prop}
    {before after : LoweringState}
    {done : Unit}

section Functions

variable
    {function : Signature}
    {body : List Stmt}

/-- The start or end of a function, whose scope has a number unless it is the entry function. -/
def functionLabel (function : Signature) (number : Nat) (isEnd : Bool) : LabelName :=
  if function.isEntry then .entry isEnd else .scope .function number isEnd

/-- The labels that are the entry function's, if a function is the entry function. -/
def isEntryLabel (function : Signature) (name : LabelName) : Prop :=
  function.isEntry = true ∧ ∃ isEnd, name = .entry isEnd

theorem enteredBy_labels
    (state : LoweringState)
    (function : Signature) :
    ((state.enteredBy function).newFrame .function "").startLabel =
        (functionLabel function state.listing.scopes.size false).text ∧
      ((state.enteredBy function).newFrame .function "").endLabel =
        (functionLabel function state.listing.scopes.size true).text := by
  have scopes : (state.enteredBy function).listing.scopes = state.listing.scopes := by
    simp [enteredBy, appended]
  have isOwn : (state.enteredBy function).function = some function := rfl
  unfold newFrame scopeLabels functionLabel
  simp only [scopes, isOwn, Option.map_some, Option.getD_some, true_and]
  cases function.isEntry with
  | true => simp [LabelName.text, LabelName.edge]
  | false => simp [LabelName.text, LabelName.edge, ScopeTree.size]

theorem sets_prepared
    (state : LoweringState)
    (function : Signature)
    (locals : Nat) :
    Sets own state (state.prepared function locals) := by
  have begins : Sets own state { state with function := some function } :=
    .of_same rfl rfl rfl rfl
  have enters : Sets own state (state.enteredBy function) :=
    begins.trans (sets_appended _ rfl)
  refine (enters.trans (sets_opened _ .function "")).trans (Sets.trans ?_ (sets_appended _ rfl))
  exact .of_same rfl rfl rfl rfl

/-- The labels of a function are given out when its scope is open. -/
theorem gave_prepared
    (state : LoweringState)
    (function : Signature)
    (locals : Nat)
    (isEnd : Bool) :
    (state.prepared function locals).listing.Gave
      (functionLabel function state.listing.scopes.size isEnd) := by
  unfold functionLabel
  split
  · trivial
  · show state.listing.scopes.size < (state.prepared function locals).listing.scopes.size
    simp [prepared, enteredBy, appended, opened, Listing.modifyFunction, ScopeTree.size_addChild]

theorem bindParameters_sets
    {scope line : Nat}
    {ids : List VarId}
    (inside : Inside before.listing.scopes scope)
    (known : ∀ id ∈ ids, before.listing.IsParameter id)
    (lowered : bindParameters scope line ids before = .ok (done, after)) :
    Sets own before after := by
  induction ids generalizing before with
  | nil =>
      rw [bindParameters] at lowered
      obtain ⟨-, rfl⟩ := pure_ok_iff.mp lowered
      exact .refl _
  | cons id rest inductionHypothesis =>
      obtain ⟨v, name, position, found, storage, _⟩ := known id (by simp)
      obtain ⟨_, restLowered⟩ := bindParameters_cons_ok inside.isModule found storage lowered
      have first := proceeds_bound scope found storage
      have frozen := Listing.frozen_modifyVariable before.listing id fun v =>
        { v with storage := .named name false true position scope }
      have binds : Sets own before (before.bound scope id name false true position) := by
        refine .of_same (congrArg Listing.Frozen.labels frozen)
          (congrArg Listing.Frozen.labelCount frozen) (ScopeTree.size_bind _ _ _ _) ?_
        rw [nodes_bound]
      exact binds.trans (inductionHypothesis (inside.grown first.extends_.scopes)
        (fun other member => first.extends_.isParameter (known other (by simp [member])))
        restLowered)

/-- The parameters of a function are still known where its body begins. -/
theorem parameters_begun
    (known : before.listing.Parameters function)
    (locals : Nat) :
    (before.begun function locals).listing.Parameters function :=
  ((grows_prepared before function locals).trans
    (proceeds_begun before function locals).toGrows).extends_.parameters known

/-- The scope that is closed behind the body of a function is that of the function. -/
theorem endLabel_of_body
    {bound between : LoweringState}
    (known : before.listing.Parameters function)
    (parametersBound : bindParameters before.listing.scopes.size function.line function.params
      (before.begun function (declarationsIn body)) = .ok ((), bound))
    (bodyLowered : statements body bound = .ok ((), between)) :
    between.innermost.endLabel =
      (functionLabel function before.listing.scopes.size true).text := by
  have binds := bindParameters_proceeds (inside_begun before function _)
    (parameters_begun known _) parametersBound
  rw [(statements_proceeds bodyLowered).endLabel, binds.1.endLabel,
    (proceeds_begun before function _).endLabel, ← (enteredBy_labels before function).2]
  rfl

section Bodies

variable
    (new : ∀ isEnd,
      (functionLabel function before.listing.scopes.size isEnd).text ∉ before.listing.labels)

include new

/-- Where a function begins, its start is set and its end is not. -/
theorem sets_begun
    (locals : Nat) :
    Sets (· = functionLabel function before.listing.scopes.size false)
        (before.prepared function locals) (before.begun function locals) ∧
      (functionLabel function before.listing.scopes.size true).text ∉
        (before.begun function locals).listing.labels := by
  have prepares : Sets (fun _ => False) before (before.prepared function locals) :=
    sets_prepared before function locals
  have given := gave_prepared before function locals
  have stillNew : ∀ isEnd, (functionLabel function before.listing.scopes.size isEnd).text ∉
      (before.prepared function locals).listing.labels := by
    intro isEnd
    simpa [prepared, enteredBy, appended, opened, Listing.modifyFunction] using new isEnd
  have begins : Sets (· = functionLabel function before.listing.scopes.size false)
      (before.prepared function locals) (before.begun function locals) := by
    unfold begun
    rw [(enteredBy_labels before function).1]
    refine Sets.trans ?_ (sets_appended _ rfl)
    exact sets_labelled _ (given false) rfl (stillNew false)
  refine ⟨begins, begins.stays_new (given true) ?_ (stillNew true)⟩
  unfold functionLabel
  split <;> rintro ⟨⟩

/-- A function sets labels with numbers that it takes itself, and those of the entry function. -/
theorem functionBody_sets
    (known : before.listing.Parameters function)
    (lowered : functionBody function body before = .ok (done, after)) :
    Sets (isEntryLabel function) before after := by
  obtain ⟨bound, between, parametersBound, bodyLowered, endNew, rfl⟩ := functionBody_ok lowered
  let both := fun name => ∃ isEnd, name = functionLabel function before.listing.scopes.size isEnd
  have prepares : Sets both before (before.prepared function (declarationsIn body)) :=
    sets_prepared before function _
  have begins : Sets both (before.prepared function (declarationsIn body))
      (before.begun function (declarationsIn body)) :=
    (sets_begun new _).1.mono fun _ same => ⟨false, same⟩
  have binds : Sets both _ bound :=
    bindParameters_sets (inside_begun before function _) (parameters_begun known _) parametersBound
  have inside : Sets both bound between :=
    (lowering_sets.2.2 body bodyLowered).mono fun _ wrong => wrong.elim
  have emptied : Sets both between between.emptied := .of_computes (computes_emptied between)
  have reached := ((begins.trans binds).trans inside).trans emptied
  have sameEnd := endLabel_of_body known parametersBound bodyLowered
  have closes : Sets both between.emptied between.closed := by
    unfold closed
    rw [sameEnd] at endNew ⊢
    exact sets_labelled _ (reached.gave (gave_prepared before function _ true)) ⟨true, rfl⟩ endNew
  have finishes : Sets both between.closed (between.finished function before.listing.scopes.size) :=
    (sets_appended _ rfl).trans (sets_appended _ rfl)
  have leaves : Sets both (between.finished function before.listing.scopes.size)
      (between.finished function before.listing.scopes.size).outside :=
    .of_same rfl rfl rfl rfl
  have whole := (((prepares.trans reached).trans closes).trans finishes).trans leaves
  refine whole.shrink ?_
  rintro _ ⟨isEnd, rfl⟩
  unfold functionLabel
  split
  next isEntry => exact .inl ⟨isEntry, isEnd, rfl⟩
  next => exact .inr (Nat.lt_irrefl _)

/-- A function is never refused because of a label. -/
theorem functionBody_spares
    (labelled : before.listing.Labelled)
    (known : before.listing.Parameters function) :
    SparesLabelsAt (functionBody function body) before := by
  obtain ⟨begins, endNew⟩ := sets_begun new (declarationsIn body)
  have prepares : Sets (fun _ => False) before (before.prepared function (declarationsIn body)) :=
    sets_prepared before function _
  have startNew : (functionLabel function before.listing.scopes.size false).text ∉
      (before.prepared function (declarationsIn body)).listing.labels := by
    simpa [prepared, enteredBy, appended, opened, Listing.modifyFunction] using new false
  have number : (before.enteredBy function).listing.scopes.size = before.listing.scopes.size := by
    simp [enteredBy, appended]
  unfold functionBody
  refine failsWith_bind (failsWith_of_ok rfl) fun _ _ run => ?_
  cases modify_ok_iff.mp run
  refine failsWith_bind (sparesLabels_emit _ _) fun _ _ run => ?_
  cases emit_ok_iff.mp run
  refine failsWith_bind (failsWith_of_ok rfl) fun current _ run => ?_
  obtain ⟨rfl, rfl⟩ := openScope_ok_iff.mp run
  refine failsWith_bind (failsWith_of_ok rfl) fun _ _ run => ?_
  cases modify_ok_iff.mp run
  refine failsWith_bind (sparesLabels_emit _ _) fun _ _ run => ?_
  cases emit_ok_iff.mp run
  change SparesLabelsAt _ (before.prepared function (declarationsIn body))
  refine failsWith_bind (sparesLabels_label ((enteredBy_labels before function).1 ▸ startNew))
    fun _ _ run => ?_
  obtain ⟨-, rfl⟩ := label_ok_iff.mp run
  refine failsWith_bind (sparesLabels_emit _ _) fun _ _ run => ?_
  cases emit_ok_iff.mp run
  change SparesLabelsAt _ (before.begun function (declarationsIn body))
  refine failsWith_bind (sparesLabels_bindParameters _ _ _ _) fun _ bound parametersBound => ?_
  change bindParameters (before.enteredBy function).listing.scopes.size _ _ _ = _ at parametersBound
  rw [number] at parametersBound
  have binds : Sets (fun _ => False) _ bound :=
    bindParameters_sets (inside_begun before function _) (parameters_begun known _) parametersBound
  have boundLabelled := binds.labelled (begins.labelled (prepares.labelled labelled))
  refine failsWith_bind (lowering_spares.2.2 body boundLabelled) fun _ between bodyLowered => ?_
  -- The end of the function was not set where the body began, and the body does not set it.
  have sameEnd := endLabel_of_body known parametersBound bodyLowered
  have given := begins.gave (gave_prepared before function (declarationsIn body) true)
  have closedNew : between.innermost.endLabel ∉ between.emptied.listing.labels := by
    rw [sameEnd, (computes_emptied between).labels]
    refine (lowering_sets.2.2 body bodyLowered).stays_new (binds.gave given) (fun wrong => wrong) ?_
    exact binds.stays_new given (fun wrong => wrong) endNew
  have closes : closeScope between = .ok ((), between.closed) :=
    closeScope_ok_iff.mpr ⟨closedNew, rfl⟩
  refine failsWith_bind (failsWith_of_ok closes) fun _ _ _ => ?_
  refine failsWith_bind (sparesLabels_emit _ _) fun _ _ _ => ?_
  refine failsWith_bind (sparesLabels_emit _ _) fun _ _ _ => ?_
  exact failsWith_bind (failsWith_of_ok rfl) fun _ _ _ => alwaysFailsWith_modify _ _

end Bodies

end Functions

section Programs

variable
    {stmts : List Stmt}

/-- The labels of the entry function are not set while the entry function is to come. -/
def EntryNew (stmts : List Stmt) (listing : Listing) : Prop :=
  entryName ∈ functionNames stmts → ∀ isEnd, (LabelName.entry isEnd).text ∉ listing.labels

variable
    {function : Signature}
    {rest : List Stmt}

/-- The labels of a function that is to come are new. -/
theorem EntryNew.functionLabel_new
    {line bodyLine : Nat}
    {params : List Param}
    {result : Ty}
    {body : List Stmt}
    (entryNew :
      EntryNew (.function line function.name params result bodyLine body :: rest) before.listing)
    (labelled : before.listing.Labelled)
    (isEnd : Bool) :
    (functionLabel function before.listing.scopes.size isEnd).text ∉ before.listing.labels := by
  unfold functionLabel
  split
  next isEntry =>
    have sameName : function.name = entryName := by
      simpa [Signature.isEntry] using isEntry
    exact entryNew (by simp [functionNames, ← sameName]) isEnd
  next => exact labelled.fresh (Nat.lt_irrefl _)

/-- Behind a function the labels of the entry function are new if they were and it is to come. -/
theorem EntryNew.behind
    (entryNew : EntryNew stmts before.listing)
    (distinct : function.name ∉ functionNames rest)
    (fewer : functionNames rest ⊆ functionNames stmts)
    (sets : Sets (isEntryLabel function) before after) :
    EntryNew rest after.listing := by
  intro isComing isEnd
  refine sets.stays_new trivial ?_ (entryNew (fewer isComing) isEnd)
  rintro ⟨isEntry, _⟩
  have sameName : function.name = entryName := by
    simpa [Signature.isEntry] using isEntry
  exact distinct (sameName ▸ isComing)

/-- A failure that is no refusal comes from an interruption. -/
def IsRefusalOrInterruption (interrupted : Nat → Bool) (failure : Failure) : Prop :=
  IsRefusal failure ∨ failure = .cancelled ∧ ∃ number, interrupted number = true

variable
    {interrupted : Nat → Bool}
    {failure : Failure}

theorem IsRefusalOrInterruption.code_ne
    (fails : IsRefusalOrInterruption interrupted failure) :
    failure.code ≠ .duplicateLabel := by
  rcases fails with refused | ⟨rfl, _⟩
  · exact refused.2
  · nofun

/-- The bodies of a program are refused, but not because of a label, or interrupted. -/
theorem bodies_spare
    {number : Nat}
    (declared : Declared stmts before.listing)
    (distinct : (functionNames stmts).Nodup)
    (labelled : before.listing.Labelled)
    (entryNew : EntryNew stmts before.listing)
    (failed : (Lowering.bodies interrupted number stmts before).2 = .error failure) :
    IsRefusalOrInterruption interrupted failure := by
  induction stmts generalizing before number with
  | nil => cases failed
  | cons first rest inductionHypothesis =>
      cases first with
      | declare line name type initial =>
          exact inductionHypothesis declared.tail distinct labelled entryNew failed
      | function line name params result bodyLine body =>
          rw [Lowering.bodies] at failed
          split at failed
          next isInterrupted =>
            cases failed
            exact .inr ⟨rfl, number, isInterrupted⟩
          obtain ⟨signature, known, parameters, -⟩ := declared (List.mem_cons_self ..)
          obtain ⟨lowered, isLowered, rfl⟩ := Option.map_eq_some_iff.mp known
          cases Listing.name_of_signature? known
          simp only [functionNames, List.nodup_cons] at distinct
          have new := entryNew.functionLabel_new labelled
          rw [isLowered] at failed
          cases run : functionBody lowered.signature body before with
          | error other =>
              simp only [run, Except.error.injEq] at failed
              subst failed
              exact .inl (by
                simpa [IsRefusal] using functionBody_spares new labelled parameters other run)
          | ok pair =>
              simp only [run] at failed
              have sets := functionBody_sets new parameters run
              refine inductionHypothesis ?_ distinct.2 (sets.labelled labelled) ?_ failed
              · exact Declared.grown (functionBody_tags parameters run).1 declared.tail
              · exact entryNew.behind distinct.1
                  (fun _ member => by simp [functionNames, member]) sets
      | _ =>
          cases failed
          exact .inl ⟨rfl, by rintro ⟨⟩⟩

/-- What stands in front of the bodies sets no label. -/
theorem moduleVariables_sets
    (lowered : moduleVariables stmts before = .ok (done, after)) :
    Sets own before after := by
  induction stmts generalizing before with
  | nil =>
      obtain ⟨-, rfl⟩ := pure_ok_iff.mp lowered
      exact .refl _
  | cons first rest inductionHypothesis =>
      cases first with
      | declare line name type initial =>
          obtain ⟨_, between, declared, restLowered⟩ := bind_ok_iff.mp lowered
          exact (Sets.of_unlabelled (declare_unlabelled [] declared)).trans
            (inductionHypothesis restLowered)
      | _ => exact inductionHypothesis lowered

variable
    {program : Program}
    {declared : LoweringState}

/-- Where the bodies begin no label has been set. -/
theorem Ready.sets
    (ready : Ready program declared) :
    Sets (fun _ => False) (start program.file) declared := by
  obtain ⟨globals, globalsLowered, functionsDeclared⟩ := ready.reached
  obtain ⟨declares, -⟩ := moduleFunctions_ok functionsDeclared
  refine (moduleVariables_sets globalsLowered).trans (.of_same ?_ ?_ ?_ ?_)
  · exact congrArg Listing.Frozen.labels declares.frozen
  · exact congrArg Listing.Frozen.labelCount declares.frozen
  · exact congrArg (fun frozen => frozen.scopes.size) declares.frozen
  · exact congrArg (fun frozen => Listing.labelsOf frozen.nodes.toList) declares.frozen

theorem Ready.labelled
    (ready : Ready program declared) :
    declared.listing.Labelled :=
  ready.sets.labelled nofun

theorem Ready.entryNew
    (ready : Ready program declared) :
    EntryNew program.statements declared.listing :=
  fun _ _ => ready.sets.stays_new trivial (fun wrong => wrong) nofun

/-- Lowering is refused, but not because of a label, or interrupted. -/
theorem ofProgram_spares
    (failed : (Lowering.ofProgram program interrupted).result = .error failure) :
    IsRefusalOrInterruption interrupted failure := by
  unfold Lowering.ofProgram at failed
  cases first : declarations program (start program.file) with
  | error other =>
      simp only [first, Except.error.injEq] at failed
      subst failed
      exact .inl (by simpa [IsRefusal] using sparesLabels_declarations program _ other first)
  | ok pair =>
      rcases pair with ⟨_, declared⟩
      obtain ⟨globals, globalsLowered, functionsDeclared, _⟩ := declarations_ok first
      have ready := ready_of_passes globalsLowered functionsDeclared
      cases run : Lowering.bodies interrupted 0 program.statements declared with
      | mk started result =>
          cases result with
          | ok final => simp [first, run] at failed
          | error other =>
              simp only [first, run, Except.error.injEq] at failed
              subst failed
              have fails : IsRefusalOrInterruption interrupted other :=
                bodies_spare ready.functions ready.distinct ready.labelled ready.entryNew
                  (by rw [run])
              rcases fails with refused | ⟨rfl, isInterrupted⟩
              · exact .inl (by simpa [IsRefusal] using refused)
              · exact .inr ⟨rfl, isInterrupted⟩

/-- The labels of bodies that were lowered one behind the other are set once. -/
theorem Bodies.marked
    (bodies : Bodies stmts before after)
    (declared : Declared stmts before.listing)
    (distinct : (functionNames stmts).Nodup)
    (labelled : before.listing.Labelled)
    (entryNew : EntryNew stmts before.listing)
    (isMarked : before.listing.Marked) :
    after.listing.Marked := by
  induction bodies with
  | nil state => exact isMarked
  | declare bodies inductionHypothesis =>
      exact inductionHypothesis declared.tail distinct labelled entryNew isMarked
  | @function line name params result bodyLine body rest function before between after known
      lowered bodies inductionHypothesis =>
      obtain ⟨signature, found, parameters, -⟩ := declared (List.mem_cons_self ..)
      cases known.symm.trans found
      cases Listing.name_of_signature? known
      simp only [functionNames, List.nodup_cons] at distinct
      have new := entryNew.functionLabel_new labelled
      have sets := functionBody_sets new parameters lowered
      refine inductionHypothesis ?_ distinct.2 (sets.labelled labelled) ?_ (sets.marked isMarked)
      · exact Declared.grown (functionBody_tags parameters lowered).1 declared.tail
      · exact entryNew.behind distinct.1
          (fun _ member => by simp [functionNames, member]) sets

end Programs

end Lower

end IlsCompiler
