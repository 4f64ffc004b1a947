import IlsCompiler.Proofs.Lowering.Programs
import IlsCompiler.Proofs.Program.LexicalNames
import IlsCompiler.Proofs.Program.Lines

namespace IlsCompiler

/-!
# What lowering looks at

Lowering writes the name of the file into the listing and never reads it, and a step of it that is
refused is refused for a line of the tree. Both are shown of every step at once, since they are kept
when steps are put together. Only looking up a name can be refused for the name: the other steps
are plain, and what a sequence has with its parts holds of an expression when it holds of looking
up the names in it.
-/

/-- The same listing under the name of another file. -/
def Listing.within (file : String) (listing : Listing) : Listing :=
  { listing with file := file }

/-- The same state of lowering under the name of another file. -/
def LoweringState.within (file : String) (state : LoweringState) : LoweringState :=
  { state with listing := state.listing.within file }

namespace Listing

variable
    {listing : Listing}
    {file : String}

@[simp] theorem modifyVariable_within
    (id : VarId)
    (change : Variable → Variable) :
    (listing.within file).modifyVariable id change =
      (listing.modifyVariable id change).within file := by
  unfold modifyVariable
  split <;> rfl

theorem modifyVariables_within
    (change : VarId → Variable → Variable)
    (ids : List VarId) :
    (ids.foldl (fun current id => current.modifyVariable id (change id)) (listing.within file)) =
      (ids.foldl (fun current id => current.modifyVariable id (change id)) listing).within file := by
  induction ids generalizing listing with
  | nil => rfl
  | cons first rest inductionHypothesis =>
      rw [List.foldl_cons, List.foldl_cons, modifyVariable_within]
      exact inductionHypothesis

theorem appendNode_within
    (function : Option Signature)
    (node : Node) :
    Lower.appendNode function (listing.within file) node =
      (Lower.appendNode function listing node).within file := by
  cases function with
  | none =>
      exact @modifyVariables_within { listing with nodes := listing.nodes.push node } file
        (fun _ v => { v with lastUse := some listing.nodes.size }) node.operands
  | some signature =>
      exact @modifyVariables_within
        ({ listing with nodes := listing.nodes.push node }.modifyFunction signature.name
          fun owner =>
            { owner with
              firstNode := if owner.nodeCount = 0 then listing.nodes.size else owner.firstNode
              nodeCount := owner.nodeCount + 1 }) file
        (fun _ v => { v with lastUse := some listing.nodes.size }) node.operands

theorem addLiteral_within
    (type : Ty)
    (text : Bytes) :
    (listing.within file).addLiteral type text =
      ((listing.addLiteral type text).1.within file, (listing.addLiteral type text).2) := by
  unfold addLiteral
  split <;> rfl

theorem addNamed_within
    (name : String)
    (type : Ty)
    (value : Value)
    (isGlobal isParam : Bool)
    (position scope : Nat) :
    (listing.within file).addNamed name type value isGlobal isParam position scope =
      ((listing.addNamed name type value isGlobal isParam position scope).1.within file,
        (listing.addNamed name type value isGlobal isParam position scope).2) := by
  unfold addNamed
  cases isGlobal <;> rfl

end Listing

/-- A fault told for a line, neither a label that is set twice nor a missing entry function. -/
def Failure.IsFault (line : Nat) (failure : Failure) : Prop :=
  ∃ code message,
    failure = .report code line message ∧ code ≠ .duplicateLabel ∧ code ≠ .missingEntry

/-- A fault told for a line that is about something else than the name of a variable. -/
def Failure.IsOther (line : Nat) (failure : Failure) : Prop :=
  failure.IsFault line ∧ failure.code ≠ .undeclaredVariable ∧ failure.code ≠ .duplicateVariable

namespace Lower

open Stateful

/--
A step that does the same in every file, and that fails only in ways that are allowed.
-/
structure Confined (allowed : Failure → Prop) (step : Lower α) : Prop where
  commutes : ∀ file, Commutes (LoweringState.within file) step
  fails : AlwaysFailsWith allowed step

/-- Every fault on a line is allowed. -/
def Admits (allowed : Failure → Prop) (line : Nat) : Prop :=
  ∀ failure : Failure, failure.IsFault line → allowed failure

/-- Every fault on a line that is about something else than the name of a variable is allowed. -/
def AdmitsOther (allowed : Failure → Prop) (line : Nat) : Prop :=
  ∀ failure : Failure, failure.IsOther line → allowed failure

/-- It is allowed that a label is set twice. -/
def AdmitsLabels (allowed : Failure → Prop) : Prop :=
  ∀ name, allowed ((LoweringFault.duplicateLabel name).failure 0)

theorem Admits.other
    {allowed : Failure → Prop}
    {line : Nat}
    (admits : Admits allowed line) :
    AdmitsOther allowed line :=
  fun failure isOther => admits failure isOther.1

theorem admitOther
    {allowed : Failure → Prop}
    {lines : List Nat}
    (admits : ∀ line ∈ lines, Admits allowed line) :
    ∀ line ∈ lines, AdmitsOther allowed line :=
  fun line isInside => (admits line isInside).other

section Steps

variable
    {allowed : Failure → Prop}

theorem Confined.mono
    {step : Lower α}
    {weaker : Failure → Prop}
    (confined : Confined allowed step)
    (implies : ∀ failure, allowed failure → weaker failure) :
    Confined weaker step where
  commutes := confined.commutes
  fails before := (confined.fails before).mono implies

theorem confined_pure
    (value : α) :
    Confined allowed (pure value : Lower α) where
  commutes _ := commutes_pure value
  fails := alwaysFailsWith_pure value

theorem confined_throw
    {failure : Failure}
    (isAllowed : allowed failure) :
    Confined allowed (throw failure : Lower α) where
  commutes _ := commutes_throw failure
  fails _ := failsWith_throw isAllowed

theorem confined_bind
    {step : Lower α}
    {next : α → Lower β}
    (first : Confined allowed step)
    (second : ∀ value, Confined allowed (next value)) :
    Confined allowed (step >>= next) where
  commutes file := commutes_bind (first.commutes file) fun _ value _ _ =>
    (second value).commutes file
  fails := alwaysFailsWith_bind first.fails fun _ value _ _ => (second value).fails

theorem confined_get
    {next : LoweringState → Lower β}
    (blind : ∀ file state, next (state.within file) = next state)
    (each : ∀ state, Confined allowed (next state)) :
    Confined allowed (get >>= next) where
  commutes file := commutes_get (blind file) fun state => (each state).commutes file
  fails := alwaysFailsWith_bind alwaysFailsWith_get fun _ state _ _ => (each state).fails

theorem confined_act
    {action : LoweringState → α × LoweringState}
    (blind : ∀ file state,
      action (state.within file) = ((action state).1, (action state).2.within file)) :
    Confined allowed (fun state => .ok (action state) : Lower α) where
  commutes file := commutes_act (blind file)
  fails _ := failsWith_of_ok rfl

theorem confined_modify
    {change : LoweringState → LoweringState}
    (blind : ∀ file state, change (state.within file) = (change state).within file) :
    Confined allowed (modify change : Lower Unit) where
  commutes file := commutes_modify (blind file)
  fails := alwaysFailsWith_modify change

theorem confined_onListing
    {change : Listing → Listing × α}
    (blind : ∀ file listing,
      change (listing.within file) = ((change listing).1.within file, (change listing).2)) :
    Confined allowed (onListing change) := by
  refine confined_act fun file state => ?_
  show ((change (state.listing.within file)).2, _) = _
  rw [show (state.within file).listing = state.listing.within file from rfl, blind]
  rfl

theorem confined_forM
    {items : List α}
    {step : α → Lower Unit}
    (each : ∀ item ∈ items, Confined allowed (step item)) :
    Confined allowed (items.forM step) where
  commutes file := commutes_forM fun item member => (each item member).commutes file
  fails := alwaysFailsWith_forM fun item member => (each item member).fails

/-- A fault of lowering on a line is a fault there. -/
theorem isFault_failure
    {fault : LoweringFault}
    {line : Nat}
    (noLabel : fault.code ≠ .duplicateLabel)
    (noEntry : fault.code ≠ .missingEntry) :
    (fault.failure line).IsFault line :=
  ⟨_, _, rfl, noLabel, noEntry⟩

theorem isOther_failure
    {fault : LoweringFault}
    {line : Nat}
    (noLabel : fault.code ≠ .duplicateLabel)
    (noEntry : fault.code ≠ .missingEntry)
    (noName : fault.code ≠ .undeclaredVariable) :
    (fault.failure line).IsOther line :=
  ⟨isFault_failure noLabel noEntry, noName, by cases fault <;> exact nofun⟩

theorem isFault_scope
    (fault : ScopeFault)
    (line : Nat) :
    (fault.failure line).IsFault line := by
  cases fault <;> exact ⟨_, _, rfl, nofun, nofun⟩

theorem confined_fail
    {fault : LoweringFault}
    {line : Nat}
    (admits : AdmitsOther allowed line)
    (noLabel : fault.code ≠ .duplicateLabel)
    (noEntry : fault.code ≠ .missingEntry)
    (noName : fault.code ≠ .undeclaredVariable) :
    Confined allowed (fail fault line : Lower α) :=
  confined_throw (admits _ (isOther_failure noLabel noEntry noName))

/-- A sequence is refused with the fault of a check or goes on. -/
theorem confined_after
    {refused : Prop}
    [Decidable refused]
    {fault : LoweringFault}
    {line : Nat}
    {next : Unit → Lower β}
    (admits : AdmitsOther allowed line)
    (noLabel : fault.code ≠ .duplicateLabel)
    (noEntry : fault.code ≠ .missingEntry)
    (noName : fault.code ≠ .undeclaredVariable)
    (later : Confined allowed (next ())) :
    Confined allowed (if refused then fail fault line >>= next else next ()) := by
  split
  · exact confined_bind (confined_fail admits noLabel noEntry noName) fun _ => later
  · exact later

theorem confined_frame :
    Confined allowed frame :=
  confined_get (fun _ _ => rfl) fun _ => confined_pure _

theorem confined_emit
    (node : Node) :
    Confined allowed (emit node) := by
  refine confined_modify fun file state => ?_
  show ({ state with listing := _ } : LoweringState) = { state with listing := _ }
  rw [← Listing.appendNode_within]
  rfl

theorem confined_resolve
    {line : Nat}
    (admits : Admits allowed line)
    (name : String) :
    Confined allowed (resolve name line) := by
  refine confined_get (fun _ _ => rfl) fun state => ?_
  refine confined_bind confined_frame fun current => ?_
  dsimp only
  split
  next fault _ => exact confined_throw (admits _ (isFault_scope fault line))
  next =>
    split
    · split
      · exact confined_pure _
      · exact confined_throw (admits _ (isFault_failure nofun nofun))
    · exact confined_throw (admits _ (isFault_failure nofun nofun))

/-- Constant arithmetic is refused for a line of the expression. -/
theorem isOther_of_evaluate
    {expr : Expr}
    {failure : Failure}
    (failed : expr.evaluate = .error failure) :
    ∃ line ∈ expr.lines, failure.IsOther line := by
  have located : ∀ {fault : ConstantFault} {line : Nat},
      expr.constantValue = .error (fault, line) → line ∈ expr.lines := by
    clear failed
    intro fault line found
    induction expr using Expr.inductionOn generalizing fault line with
    | binary start op left right leftHypothesis rightHypothesis =>
        rw [Expr.constantValue] at found
        rw [Expr.lines, List.mem_cons, List.mem_append]
        split at found
        next other run =>
          cases found
          exact .inr (.inl (leftHypothesis run))
        split at found
        next other run =>
          cases found
          exact .inr (.inr (rightHypothesis run))
        split at found
        · cases found
        · cases found
          exact .inl rfl
    | literal start value =>
        rw [Expr.constantValue] at found
        split at found <;> cases found
        exact List.mem_singleton.mpr rfl
    | missing =>
        cases found
        exact List.mem_singleton.mpr rfl
    | _ =>
        cases found
        exact Expr.line_mem_lines _
  unfold Expr.evaluate at failed
  split at failed
  · cases failed
  next fault line found =>
    cases failed
    exact ⟨line, located found, by
      cases fault <;> exact ⟨⟨_, _, rfl, by rintro ⟨⟩, by rintro ⟨⟩⟩, by rintro ⟨⟩, by rintro ⟨⟩⟩⟩

theorem isOther_of_assignable
    {wanted given : Ty}
    {line : Nat}
    {failure : Failure}
    (failed : assignable wanted given line = .error failure) :
    failure.IsOther line := by
  unfold assignable at failed
  split at failed
  · cases failed
    exact isOther_failure nofun nofun nofun
  · split at failed
    · cases failed
    · cases failed
      exact isOther_failure nofun nofun nofun

theorem confined_label
    (labels : AdmitsLabels allowed)
    (name : String) :
    Confined allowed (label name) := by
  have sets : Confined allowed (do
      modify fun state =>
        { state with listing := { state.listing with labels := state.listing.labels ++ [name] } }
      emit (.label name)) :=
    confined_bind (confined_modify fun _ _ => rfl) fun _ => confined_emit _
  refine confined_get (fun _ _ => rfl) fun state => ?_
  dsimp only
  split
  · exact confined_bind (confined_throw (labels name)) fun _ => sets
  · exact sets

theorem confined_openScope
    (kind : Scope.Kind)
    (exitLabel : String) :
    Confined allowed (openScope kind exitLabel) := by
  refine confined_bind confined_frame fun current => ?_
  refine confined_bind (confined_onListing fun _ _ => rfl) fun scope => ?_
  refine confined_get (fun _ _ => rfl) fun state => ?_
  exact confined_bind (confined_modify fun _ _ => rfl) fun _ => confined_pure _

theorem confined_closeScope
    (labels : AdmitsLabels allowed) :
    Confined allowed closeScope := by
  refine confined_bind confined_frame fun current => ?_
  refine confined_bind (confined_forM fun _ _ => confined_emit _) fun _ => ?_
  exact confined_bind (confined_forM fun _ _ => confined_emit _) fun _ => confined_label labels _

end Steps

/--
A step that does the same in every file and leaves the scopes as they are. Where it fails, this is
for a line and about something else than the name of a variable.
-/
structure Plain (line : Nat) (step : Lower α) : Prop where
  confined : ∀ {allowed : Failure → Prop}, AdmitsOther allowed line → Confined allowed step
  stays : ∀ {before after : LoweringState} {value : α},
    step before = .ok (value, after) → before.Stays after

section PlainSteps

open LoweringState

variable
    {line : Nat}

theorem plain_pure
    (value : α) :
    Plain line (pure value : Lower α) where
  confined _ := confined_pure value
  stays run := by
    obtain ⟨-, rfl⟩ := pure_ok_iff.mp run
    exact .refl _

theorem plain_bind
    {step : Lower α}
    {next : α → Lower β}
    (first : Plain line step)
    (second : ∀ value, Plain line (next value)) :
    Plain line (step >>= next) where
  confined admits := confined_bind (first.confined admits) fun value =>
    (second value).confined admits
  stays run := by
    obtain ⟨_, _, stepped, later⟩ := bind_ok_iff.mp run
    exact (first.stays stepped).trans ((second _).stays later)

theorem plain_get
    {next : LoweringState → Lower β}
    (blind : ∀ file state, next (state.within file) = next state)
    (each : ∀ state, Plain line (next state)) :
    Plain line (get >>= next) where
  confined admits := confined_get blind fun state => (each state).confined admits
  stays run := by
    obtain ⟨_, _, got, later⟩ := bind_ok_iff.mp run
    obtain ⟨rfl, rfl⟩ := get_ok_iff.mp got
    exact (each _).stays later

theorem plain_throw
    {failure : Failure}
    (isOther : failure.IsOther line) :
    Plain line (throw failure : Lower α) where
  confined admits := confined_throw (admits _ isOther)
  stays run := (throw_ok_iff.mp run).elim

theorem plain_fail
    {fault : LoweringFault}
    (noLabel : fault.code ≠ .duplicateLabel)
    (noEntry : fault.code ≠ .missingEntry)
    (noName : fault.code ≠ .undeclaredVariable) :
    Plain line (fail fault line : Lower α) :=
  plain_throw (isOther_failure noLabel noEntry noName)

/-- A sequence is refused with the fault of a check or goes on. -/
theorem plain_after
    {refused : Prop}
    [Decidable refused]
    {fault : LoweringFault}
    {next : Unit → Lower β}
    (refuses : Plain line (fail fault line : Lower Unit))
    (later : Plain line (next ())) :
    Plain line (if refused then fail fault line >>= next else next ()) := by
  split
  · exact plain_bind refuses fun _ => later
  · exact later

theorem plain_find?
    (id : VarId) :
    Plain line (find? id) :=
  plain_get (fun _ _ => rfl) fun _ => plain_pure _

theorem plain_typeOf
    (id : VarId) :
    Plain line (typeOf id) :=
  plain_bind (plain_find? id) fun _ => plain_pure _

theorem plain_emit
    {node : Node}
    (isInner : node.isInner) :
    Plain line (emit node) where
  confined _ := confined_emit node
  stays run := by
    cases emit_ok_iff.mp run
    exact .appended _ isInner

theorem plain_newLiteral
    (value : Literal) :
    Plain line (newLiteral value) where
  confined _ := by
    unfold newLiteral
    split <;> exact confined_onListing fun _ _ => Listing.addLiteral_within _ _
  stays run := by
    obtain ⟨_, rfl⟩ := newLiteral_ok_iff.mp run
    exact .of_computes (computes_withLiteral _ _)

theorem plain_newTemporary
    (type : Ty)
    (value : Value)
    (isResult : Bool)
    (shown : Nat) :
    Plain line (newTemporary type value isResult shown) where
  confined _ := by
    refine confined_bind confined_frame fun current => ?_
    refine confined_bind (confined_onListing fun _ _ => rfl) fun id => ?_
    refine confined_bind (confined_modify fun _ _ => rfl) fun _ => ?_
    exact confined_bind (confined_emit _) fun _ => confined_pure _
  stays run := by
    obtain ⟨_, rfl⟩ := newTemporary_ok_iff.mp run
    exact .of_computes (computes_withTemporary _ _ _ _ _)

theorem plain_destroy
    (id : VarId) :
    Plain line (destroy id) where
  confined _ := by
    refine confined_get (fun _ _ => rfl) fun state => ?_
    dsimp only
    split
    · exact confined_bind (confined_modify fun _ _ => rfl) fun _ => confined_emit _
    · exact confined_pure _
  stays run := by
    cases destroy_ok_iff.mp run
    exact .of_computes (computes_destroyed _ _)

theorem plain_defaultValue
    (type : Ty) :
    Plain line (defaultValue type) where
  confined _ := by
    unfold defaultValue
    split
    · exact confined_bind (confined_onListing fun _ _ => rfl) fun _ => confined_pure _
    · exact confined_pure _
  stays run := by
    obtain ⟨_, rfl⟩ := defaultValue_ok_iff.mp run
    exact ⟨proceeds_defaulted _ type, defaulted_scopes _ type⟩

theorem plain_materialize
    (id : VarId)
    (shown : Nat) :
    Plain line (materialize id shown) := by
  refine plain_bind (plain_find? id) fun found => ?_
  split
  · exact plain_newTemporary _ _ _ _
  · exact plain_pure _

theorem plain_element
    (array : Variable)
    (index : VarId) :
    Plain line (element array index line) where
  confined admits := by
    have access : Confined _ (do
        let position ← materialize index line
        onListing fun listing => listing.addElement array.id position) :=
      confined_bind ((plain_materialize _ _).confined admits) fun _ => confined_onListing fun _ _ => rfl
    refine confined_bind ((plain_typeOf index).confined admits) fun type => ?_
    refine confined_after admits nofun nofun nofun ?_
    refine confined_bind ((plain_find? index).confined admits) fun found => ?_
    split
    · exact confined_after admits nofun nofun nofun access
    · exact access
  stays run := .of_computes (element_computes run)

theorem plain_requireArray
    (array : Variable)
    (name : String) :
    Plain line (requireArray array name line) := by
  unfold requireArray
  split
  · exact plain_pure _
  · exact plain_fail nofun nofun nofun

theorem plain_requireArithmetic
    (op : ArithOp)
    (id : VarId) :
    Plain line (requireArithmetic op id line) := by
  refine plain_bind (plain_typeOf id) fun type => ?_
  split
  · exact plain_fail nofun nofun nofun
  · exact plain_pure _

theorem plain_operation
    (op : ArithOp)
    (left right : VarId) :
    Plain line (operation op left right line) := by
  refine plain_bind (plain_requireArithmetic _ _) fun _ => ?_
  refine plain_bind (plain_requireArithmetic _ _) fun _ => ?_
  refine plain_bind (plain_materialize _ _) fun _ => ?_
  refine plain_bind (plain_materialize _ _) fun _ => ?_
  refine plain_bind (plain_newTemporary _ _ _ _) fun _ => ?_
  refine plain_bind (plain_emit rfl) fun _ => ?_
  refine plain_bind (plain_destroy _) fun _ => ?_
  exact plain_bind (plain_destroy _) fun _ => plain_pure _

theorem plain_argument
    (function : String)
    (id : VarId) :
    Plain line (argument function id line) := by
  have copies : ∀ v : Variable, Plain line (do
      if v.type.isArray then
        fail (.arrayArgument function) line
      newTemporary v.type (.reference id) false line) :=
    fun v => plain_after (plain_fail nofun nofun nofun) (plain_newTemporary _ _ _ _)
  refine plain_bind (plain_find? id) fun found => ?_
  split
  next v =>
    split
    · exact copies v
    · exact copies v
    · exact plain_materialize _ _
    · exact plain_pure _
  · exact plain_pure _

theorem plain_requireAssignable
    (wanted : Ty)
    (id : VarId) :
    Plain line (requireAssignable wanted id line) := by
  refine plain_bind (plain_typeOf id) fun given => ?_
  split
  · exact plain_pure _
  next failed => exact plain_throw (isOther_of_assignable failed)

theorem plain_requireParameters
    (params given : List VarId) :
    Plain line (requireParameters params given line) := by
  induction params generalizing given with
  | nil => exact plain_pure _
  | cons param rest inductionHypothesis =>
      cases given with
      | nil => exact plain_pure _
      | cons first others =>
          refine plain_bind (plain_typeOf param) fun _ => ?_
          exact plain_bind (plain_requireAssignable _ _) fun _ => inductionHypothesis others

theorem plain_invoke
    (function : Signature)
    (arguments : List VarId)
    (isStatement : Bool) :
    Plain line (invoke function arguments line isStatement) where
  confined admits := by
    refine confined_bind ((plain_requireParameters _ _).confined admits) fun _ => ?_
    refine confined_bind (confined_onListing fun _ _ => rfl) fun call => ?_
    split
    · refine confined_bind (confined_modify fun file state => ?_) fun _ => ?_
      · exact congrArg (fun listing => ({ state with listing := listing } : LoweringState))
          (Listing.modifyVariables_within _ _)
      · exact confined_bind (confined_emit _) fun _ => confined_pure _
    · refine confined_bind (confined_onListing fun _ _ => rfl) fun result => ?_
      dsimp only
      split
      · exact confined_bind (confined_emit _) fun _ => confined_pure _
      · exact confined_pure _
  stays run := .of_computes (invoke_computes run)

theorem plain_invokeBuiltin
    (builtin : Builtin)
    (arguments : List VarId) :
    Plain line (invokeBuiltin builtin arguments line) where
  confined admits := by
    refine confined_bind (confined_forM fun id _ => ?_) fun _ => ?_
    · refine confined_bind ((plain_typeOf id).confined admits) fun type => ?_
      split
      · exact confined_fail admits nofun nofun nofun
      · exact confined_pure _
    · exact confined_bind (confined_onListing fun _ _ => rfl) fun _ => confined_emit _
  stays run := .of_computes (invokeBuiltin_computes run)

theorem plain_findBuiltin
    (name : String)
    (given : Nat) :
    Plain line (findBuiltin name given line) := by
  unfold findBuiltin
  split
  · exact plain_fail nofun nofun nofun
  · exact plain_after (plain_fail nofun nofun nofun) (plain_pure _)

theorem plain_findFunction
    (name : String)
    (given : Nat) :
    Plain line (findFunction name given line) := by
  refine plain_get (fun _ _ => rfl) fun state => ?_
  split
  · exact plain_fail nofun nofun nofun
  · exact plain_after (plain_fail nofun nofun nofun) (plain_pure _)

theorem plain_require
    (result : Option VarId) :
    Plain line (require result line) := by
  cases result with
  | none => exact plain_fail nofun nofun nofun
  | some id => exact plain_pure _

end PlainSteps

/--
A property of steps that a sequence has with its parts. Plain steps on some lines have it, and so
has looking up some names.
-/
structure Composes (lines : Nat → Prop) (names : String → Prop)
    (holds : ∀ {α : Type}, Lower α → Prop) : Prop where
  done : ∀ {α : Type} (value : α), holds (pure value : Lower α)
  sequence : ∀ {α β : Type} {step : Lower α} {next : α → Lower β},
    holds step → (∀ value, holds (next value)) → holds (step >>= next)
  reads : ∀ {β : Type} {next : LoweringState → Lower β},
    (∀ file state, next (state.within file) = next state) → (∀ state, holds (next state)) →
      holds (get >>= next)
  plain : ∀ {α : Type} {line : Nat} {step : Lower α}, lines line → Plain line step → holds step
  resolves : ∀ {line : Nat} {name : String}, lines line → names name → holds (resolve name line)

/-!
## Expressions and simple statements

By recursion on the tree, with the lines and the names that stand in it.
-/

namespace Composes

variable
    {lines : Nat → Prop}
    {names : String → Prop}
    {holds : ∀ {α : Type}, Lower α → Prop}

/-- A check is refused or passes, and the rest follows. -/
theorem checks
    (composes : Composes lines names @holds)
    {refused : Prop}
    [Decidable refused]
    {fault : LoweringFault}
    {line : Nat}
    {β : Type}
    {next : Unit → Lower β}
    (here : lines line)
    (isPlain : Plain line (fail fault line : Lower Unit))
    (later : holds (next ())) :
    holds (if refused then fail fault line >>= next else next ()) := by
  split
  · exact composes.sequence (composes.plain here isPlain) fun _ => later
  · exact later

theorem arguments
    (composes : Composes lines names @holds)
    {function : String}
    {line : Nat}
    {given : List Expr}
    (here : lines line)
    (inside : ∀ line ∈ linesOfParts given, lines line)
    (each : ∀ expr ∈ given, holds (expression expr)) :
    holds (Lower.arguments function line given) := by
  induction given with
  | nil =>
      rw [Lower.arguments]
      exact composes.done _
  | cons first rest inductionHypothesis =>
      rw [linesOfParts, List.forall_mem_append] at inside
      rw [Lower.arguments]
      refine composes.sequence (each first List.mem_cons_self) fun _ => ?_
      refine composes.sequence
        (composes.plain (inside.1 _ first.line_mem_lines) (plain_require _)) fun _ => ?_
      refine composes.sequence (composes.plain here (plain_argument _ _)) fun _ => ?_
      refine composes.sequence ?_ fun _ => composes.done _
      exact inductionHypothesis inside.2 fun expr member =>
        each expr (List.mem_cons_of_mem _ member)

theorem expression
    (composes : Composes lines names @holds)
    {expr : Expr}
    (inside : ∀ line ∈ expr.lines, lines line)
    (named : ∀ name ∈ expr.names, names name) :
    holds (Lower.expression expr) := by
  induction expr using Expr.inductionOn with
  | missing =>
      rw [Lower.expression]
      exact composes.plain (inside 0 List.mem_cons_self)
        (plain_fail (by rintro ⟨⟩) (by rintro ⟨⟩) (by rintro ⟨⟩))
  | name line name =>
      rw [Lower.expression]
      refine composes.sequence ?_ fun _ => composes.done _
      exact composes.resolves (inside line List.mem_cons_self) (named name List.mem_cons_self)
  | literal line value =>
      rw [Lower.expression]
      refine composes.sequence ?_ fun _ => composes.done _
      exact composes.plain (inside line List.mem_cons_self) (plain_newLiteral _)
  | binary line op left right leftHypothesis rightHypothesis =>
      have whole := inside
      rw [Expr.lines, List.forall_mem_cons, List.forall_mem_append] at whole
      obtain ⟨here, insideLeft, insideRight⟩ := whole
      rw [Expr.names, List.forall_mem_append] at named
      rw [Lower.expression]
      split
      · split
        next failed =>
          obtain ⟨_, member, isOther⟩ := isOther_of_evaluate failed
          exact composes.plain (inside _ member) (plain_throw isOther)
        next =>
          refine composes.sequence ?_ fun _ => composes.done _
          exact composes.plain here (plain_newLiteral _)
      · refine composes.sequence (leftHypothesis insideLeft named.1) fun _ => ?_
        refine composes.sequence
          (composes.plain (insideLeft _ left.line_mem_lines) (plain_require _)) fun _ => ?_
        refine composes.sequence (rightHypothesis insideRight named.2) fun _ => ?_
        refine composes.sequence
          (composes.plain (insideRight _ right.line_mem_lines) (plain_require _)) fun _ => ?_
        refine composes.sequence ?_ fun _ => composes.done _
        exact composes.plain here (plain_operation _ _ _)
  | element line array index indexHypothesis =>
      rw [Expr.lines, List.forall_mem_cons] at inside
      rw [Expr.names, List.forall_mem_cons] at named
      rw [Lower.expression]
      refine composes.sequence (composes.resolves inside.1 named.1) fun _ => ?_
      refine composes.sequence (composes.plain inside.1 (plain_requireArray _ _)) fun _ => ?_
      refine composes.sequence (indexHypothesis inside.2 named.2) fun _ => ?_
      refine composes.sequence
        (composes.plain (inside.2 _ index.line_mem_lines) (plain_require _)) fun _ => ?_
      refine composes.sequence ?_ fun _ => composes.done _
      exact composes.plain inside.1 (plain_element _ _)
  | array line elements _ =>
      rw [Lower.expression]
      exact composes.plain (inside line List.mem_cons_self)
        (plain_fail (by rintro ⟨⟩) (by rintro ⟨⟩) (by rintro ⟨⟩))
  | call line name builtin given each =>
      rw [Expr.lines, List.forall_mem_cons] at inside
      have lowered : holds (Lower.arguments name line given) :=
        composes.arguments inside.1 inside.2 fun expr member =>
          each expr member (fun _ isInside => inside.2 _ (lines_of_part member isInside))
            fun _ isInside => named _ (names_of_part member isInside)
      rw [Lower.expression]
      split
      · refine composes.sequence (composes.plain inside.1 (plain_findBuiltin _ _)) fun _ => ?_
        refine composes.sequence lowered fun _ => ?_
        refine composes.sequence ?_ fun _ => composes.done _
        exact composes.plain inside.1 (plain_invokeBuiltin _ _)
      · refine composes.sequence (composes.plain inside.1 (plain_findFunction _ _)) fun _ => ?_
        refine composes.sequence lowered fun _ => ?_
        exact composes.plain inside.1 (plain_invoke _ _ _)

theorem value
    (composes : Composes lines names @holds)
    {expr : Expr}
    (inside : ∀ line ∈ expr.lines, lines line)
    (named : ∀ name ∈ expr.names, names name) :
    holds (Lower.value expr) :=
  composes.sequence (composes.expression inside named) fun _ =>
    composes.plain (inside _ expr.line_mem_lines) (plain_require _)

theorem elementOf
    (composes : Composes lines names @holds)
    {line : Nat}
    {index : Expr}
    (here : lines line)
    (inside : ∀ line ∈ index.lines, lines line)
    (named : ∀ name ∈ index.names, names name)
    (array : Variable)
    (name : String) :
    holds (Lower.elementOf array name index line) := by
  refine composes.sequence (composes.plain here (plain_requireArray _ _)) fun _ => ?_
  exact composes.sequence (composes.value inside named) fun _ =>
    composes.plain here (plain_element _ _)

theorem callStatement
    (composes : Composes lines names @holds)
    {line : Nat}
    {given : List Expr}
    (here : lines line)
    (inside : ∀ line ∈ linesOfParts given, lines line)
    (named : ∀ name ∈ namesOfParts given, names name)
    (name : String)
    (builtin : Bool) :
    holds (Lower.callStatement line name builtin given) := by
  have lowered : holds (Lower.arguments name line given) :=
    composes.arguments here inside fun expr member =>
      composes.expression (fun _ isInside => inside _ (lines_of_part member isInside))
        fun _ isInside => named _ (names_of_part member isInside)
  unfold Lower.callStatement
  split
  · refine composes.sequence (composes.plain here (plain_findBuiltin _ _)) fun _ => ?_
    exact composes.sequence lowered fun _ => composes.plain here (plain_invokeBuiltin _ _)
  · refine composes.sequence (composes.plain here (plain_findFunction _ _)) fun _ => ?_
    refine composes.sequence lowered fun _ => ?_
    refine composes.sequence ?_ fun _ => composes.done _
    exact composes.plain here (plain_invoke _ _ _)

theorem comparison
    (composes : Composes lines names @holds)
    {term : Comparison}
    (inside : ∀ line ∈ term.lines, lines line)
    (named : ∀ name ∈ term.left.names ++ namesOfValue term.right, names name) :
    holds (Lower.comparison term) := by
  rw [Comparison.lines, List.forall_mem_cons, List.forall_mem_append] at inside
  obtain ⟨here, insideLeft, insideRight⟩ := inside
  rw [List.forall_mem_append] at named
  have comparable : ∀ id, holds (do
      let type ← typeOf id
      if type = .str ∨ type.isArray then
        fail (.incomparable type) term.line : Lower Unit) := by
    intro id
    refine composes.sequence (composes.plain here (plain_typeOf _)) fun type => ?_
    split
    · exact composes.plain here (plain_fail (by rintro ⟨⟩) (by rintro ⟨⟩) (by rintro ⟨⟩))
    · exact composes.done _
  have finish : ∀ (left right : VarId) (test : CmpOp), holds (do
      [left, right].forM fun id => do
        let type ← typeOf id
        if type = .str ∨ type.isArray then
          fail (.incomparable type) term.line
      let leftOperand ← materialize left term.line
      let rightOperand ← materialize right term.line
      return (leftOperand, rightOperand, test)) := by
    intro left right test
    refine composes.sequence (composes.sequence (comparable left) fun _ =>
      composes.sequence (comparable right) fun _ => composes.done _) fun _ => ?_
    refine composes.sequence (composes.plain here (plain_materialize _ _)) fun _ => ?_
    exact composes.sequence (composes.plain here (plain_materialize _ _)) fun _ =>
      composes.done _
  have missing : Plain term.line
      (fail .missingComparison term.line : Lower (VarId × VarId × CmpOp)) :=
    plain_fail (by rintro ⟨⟩) (by rintro ⟨⟩) (by rintro ⟨⟩)
  unfold Lower.comparison
  refine composes.sequence (composes.value insideLeft named.1) fun left => ?_
  split
  · refine composes.sequence (composes.plain here (plain_newLiteral _)) fun _ => ?_
    refine composes.sequence (composes.done _) ?_
    rintro ⟨right, op⟩
    cases op with
    | none => exact composes.plain here missing
    | some test => exact finish left right test
  next expr isGiven =>
    rw [isGiven] at insideRight named
    refine composes.sequence (composes.value insideRight named.2) fun _ => ?_
    refine composes.sequence (composes.done _) ?_
    rintro ⟨right, op⟩
    cases op with
    | none => exact composes.plain here missing
    | some test => exact finish left right test

theorem conditionTerms
    (composes : Composes lines names @holds)
    {terms : List Comparison}
    (inside : ∀ line ∈ terms.flatMap Comparison.lines, lines line)
    (named : ∀ name ∈ namesOfTerms terms, names name)
    (whenTrue whenFalse : String)
    (joins : List Logic) :
    holds (Lower.conditionTerms whenTrue whenFalse terms joins) := by
  induction terms generalizing joins with
  | nil =>
      rw [Lower.conditionTerms]
      exact composes.done _
  | cons term rest inductionHypothesis =>
      rw [List.flatMap_cons, List.forall_mem_append] at inside
      rw [namesOfTerms, List.forall_mem_append] at named
      have here : lines term.line := inside.1 _ List.mem_cons_self
      have others := inductionHypothesis inside.2 named.2 joins.tail
      rw [Lower.conditionTerms]
      refine composes.sequence (composes.comparison inside.1 named.1) fun _ => ?_
      refine composes.sequence (composes.plain here (plain_emit rfl)) fun _ => ?_
      refine composes.sequence (composes.plain here (plain_destroy _)) fun _ => ?_
      refine composes.sequence (composes.plain here (plain_destroy _)) fun _ => ?_
      split
      · exact composes.sequence (composes.plain here (plain_emit rfl)) fun _ => others
      · exact composes.sequence (composes.plain here (plain_emit rfl)) fun _ => others

theorem condition
    (composes : Composes lines names @holds)
    {test : Option Condition}
    (inside : ∀ line ∈ linesOfTest test, lines line)
    (named : ∀ name ∈ namesOfTest test, names name)
    (whenTrue whenFalse : String)
    (falseFollows : Bool) :
    holds (Lower.condition test whenTrue whenFalse falseFollows) := by
  unfold Lower.condition
  cases test with
  | none =>
      exact composes.plain (inside 0 List.mem_cons_self) (plain_fail nofun nofun nofun)
  | some chain =>
      have tests : ∀ {line : Nat}, lines line →
          (∀ line ∈ chain.terms.flatMap Comparison.lines, lines line) → holds (do
            Lower.conditionTerms whenTrue whenFalse chain.terms chain.joins
            if !falseFollows then
              emit (.jump whenFalse none)) := by
        intro line here within
        refine composes.sequence (composes.conditionTerms within named _ _ _) fun _ => ?_
        split
        · exact composes.plain here (plain_emit rfl)
        · exact composes.done _
      rw [linesOfTest] at inside
      dsimp only
      split
      next isEmpty =>
        rw [if_pos isEmpty] at inside
        have here := inside 0 List.mem_cons_self
        refine composes.sequence (composes.plain here (plain_fail nofun nofun nofun)) fun _ => ?_
        exact tests here (by simp [List.isEmpty_iff.mp isEmpty])
      next given =>
        rw [if_neg given] at inside
        obtain ⟨first, member⟩ := List.exists_mem_of_ne_nil chain.terms (by simpa using given)
        exact tests (inside _ (List.mem_flatMap.mpr ⟨first, member, List.mem_cons_self⟩)) inside

theorem initializer
    (composes : Composes lines names @holds)
    {line : Nat}
    {initial : Option Expr}
    (here : lines line)
    (inside : ∀ line ∈ linesOfValue initial, lines line)
    (named : ∀ name ∈ namesOfValue initial, names name)
    (type : Ty) :
    holds (Lower.initializer line type initial) := by
  unfold Lower.initializer
  split
  · exact composes.plain here (plain_defaultValue _)
  · refine composes.sequence (composes.value inside named) fun _ => ?_
    refine composes.sequence (composes.plain here (plain_requireAssignable _ _)) fun _ => ?_
    refine composes.sequence (composes.plain here (plain_find? _)) fun _ => ?_
    split <;> exact composes.done _

theorem assign
    (composes : Composes lines names @holds)
    {line : Nat}
    {name : String}
    {index : Option Expr}
    {expr : Expr}
    (here : lines line)
    (insideIndex : ∀ line ∈ linesOfValue index, lines line)
    (inside : ∀ line ∈ expr.lines, lines line)
    (named : ∀ used ∈ name :: (namesOfValue index ++ expr.names), names used) :
    holds (Lower.assign line name index expr) := by
  rw [List.forall_mem_cons, List.forall_mem_append] at named
  obtain ⟨isName, namedIndex, namedValue⟩ := named
  have stores : ∀ (wanted : Ty) (next : Option Variable → Lower Unit),
      (∀ found, holds (next found)) → holds (do
        let id ← Lower.value expr
        requireAssignable wanted id line
        next (← find? id)) := by
    intro wanted next each
    refine composes.sequence (composes.value inside namedValue) fun _ => ?_
    refine composes.sequence (composes.plain here (plain_requireAssignable _ _)) fun _ => ?_
    exact composes.sequence (composes.plain here (plain_find? _)) each
  refine composes.sequence (composes.resolves here isName) fun target => ?_
  split
  · refine composes.sequence (composes.elementOf here insideIndex namedIndex _ _) fun _ => ?_
    refine composes.sequence (composes.plain here (plain_typeOf _)) fun _ => ?_
    refine composes.sequence (composes.done _) fun _ => stores _ _ fun found => ?_
    cases found with
    | none => exact composes.done _
    | some v => exact composes.plain here (plain_emit rfl)
  · refine composes.checks here (plain_fail (by rintro ⟨⟩) (by rintro ⟨⟩) (by rintro ⟨⟩)) ?_
    refine composes.sequence (composes.done _) fun _ => stores _ _ fun found => ?_
    cases found with
    | none => exact composes.done _
    | some v => exact composes.plain here (plain_emit rfl)

theorem leave
    (composes : Composes lines names @holds)
    {line : Nat}
    {result : Option Expr}
    (here : lines line)
    (inside : ∀ line ∈ linesOfValue result, lines line)
    (named : ∀ name ∈ namesOfValue result, names name) :
    holds (Lower.leave line result) := by
  refine composes.reads (fun _ _ => rfl) fun state => ?_
  split
  next body _ _ =>
    have returns : ∀ id, holds (do
        emit (.leave id line)
        emit (.jump body.endLabel none) : Lower Unit) := fun _ =>
      composes.sequence (composes.plain here (plain_emit rfl)) fun _ =>
        composes.plain here (plain_emit rfl)
    split
    · split
      · refine composes.sequence ?_ fun _ => returns _
        exact composes.plain here (plain_fail nofun nofun nofun)
      · exact composes.sequence (composes.done _) fun _ => returns _
    · refine composes.checks here (plain_fail nofun nofun nofun) ?_
      refine composes.sequence (composes.value inside named) fun _ => ?_
      refine composes.sequence (composes.plain here (plain_requireAssignable _ _)) fun _ => ?_
      exact composes.sequence (composes.done _) fun _ => returns _
  · exact composes.plain here (plain_fail nofun nofun nofun)

end Composes

/-- To be confined is such a property, on the lines whose faults are allowed. -/
theorem composes_confined
    {allowed : Failure → Prop} :
    Composes (Admits allowed) (fun _ => True) (Confined allowed) where
  done := confined_pure
  sequence := confined_bind
  reads := confined_get
  plain here isPlain := isPlain.confined here.other
  resolves here _ := confined_resolve here _

end Lower

end IlsCompiler
