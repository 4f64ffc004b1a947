import IlsCompiler.Proofs.Lowering.Confinement

namespace IlsCompiler

/-!
# How lowering is refused

Where lowering is refused, the refusal is told for a line of the tree; only a label that is set
twice and a missing entry function are told without a line. Expressions, conditions, declarations,
assignments and returns set no label, so they are refused for other reasons.
-/

variable
    {line : Nat}
    {failure : Failure}
    {stmts : List Stmt}
    {program : Program}
    {step : Lower α}

namespace Lower

open Stateful

section Declarations

variable
    {allowed : Failure → Prop}

theorem isOther_of_scalarConstant
    {expr : Expr}
    (failed : scalarConstant expr = .error failure) :
    ∃ line ∈ expr.lines, failure.IsOther line := by
  unfold scalarConstant at failed
  split at failed
  · cases failed
    exact ⟨_, List.mem_cons_self, isOther_failure nofun nofun nofun⟩
  · cases failed
  · split at failed
    · split at failed
      next evaluated =>
        cases failed
        exact isOther_of_evaluate evaluated
      · cases failed
    · cases failed
      exact ⟨_, Expr.line_mem_lines _, isOther_failure nofun nofun nofun⟩

theorem isOther_of_arrayConstants
    {wanted : Ty}
    {elements : List Expr}
    (failed : arrayConstants wanted elements = .error failure) :
    ∃ line ∈ linesOfParts elements, failure.IsOther line := by
  induction elements with
  | nil => cases failed
  | cons first rest inductionHypothesis =>
      simp only [linesOfParts, List.mem_append]
      rw [arrayConstants] at failed
      cases found : scalarConstant first with
      | error other =>
          rw [found] at failed
          cases failed
          obtain ⟨line, inside, isOther⟩ := isOther_of_scalarConstant found
          exact ⟨line, .inl inside, isOther⟩
      | ok pair =>
          rw [found] at failed
          cases checked : assignable wanted pair.2 first.line with
          | error other =>
              simp only [bind, Except.bind, checked] at failed
              cases failed
              exact ⟨_, .inl first.line_mem_lines, isOther_of_assignable checked⟩
          | ok done =>
              simp only [bind, Except.bind, checked] at failed
              cases others : arrayConstants wanted rest with
              | error other =>
                  simp only [others] at failed
                  cases failed
                  obtain ⟨line, inside, isOther⟩ := inductionHypothesis others
                  exact ⟨line, .inr inside, isOther⟩
              | ok texts =>
                  simp only [others] at failed
                  cases failed

variable
    {initial : Option Expr}

theorem confined_constant
    (here : AdmitsOther allowed line)
    (inside : ∀ line ∈ linesOfValue initial, AdmitsOther allowed line)
    (name : String)
    (type : Ty) :
    Confined allowed (constant line name type initial) := by
  unfold constant
  split
  · exact (plain_defaultValue _).confined here
  next expr =>
    rw [linesOfValue] at inside
    split
    · split
      next elements =>
        refine confined_after here (by rintro ⟨⟩) (by rintro ⟨⟩) (by rintro ⟨⟩) ?_
        split
        next failed =>
          obtain ⟨_, member, isOther⟩ := isOther_of_arrayConstants failed
          exact confined_throw (inside _ (List.mem_cons_of_mem _ member) _ isOther)
        next =>
          exact confined_bind (confined_onListing fun _ _ => rfl) fun _ => confined_pure _
      · exact confined_fail here (by rintro ⟨⟩) (by rintro ⟨⟩) (by rintro ⟨⟩)
    · split
      · exact confined_bind (confined_onListing fun _ _ => rfl) fun _ => confined_pure _
      · split
        next failed =>
          obtain ⟨_, member, isOther⟩ := isOther_of_scalarConstant failed
          exact confined_throw (inside _ member _ isOther)
        next =>
          split
          next failed => exact confined_throw (here _ (isOther_of_assignable failed))
          next => exact confined_pure _

theorem confined_declare
    (here : Admits allowed line)
    (inside : ∀ line ∈ linesOfValue initial, Admits allowed line)
    (name : String)
    (type : Ty) :
    Confined allowed (declare line name type initial) := by
  refine confined_bind confined_frame fun current => ?_
  refine confined_get (fun _ _ => rfl) fun state => ?_
  dsimp only
  split
  · exact confined_pure _
  refine confined_after here.other (by rintro ⟨⟩) (by rintro ⟨⟩) (by rintro ⟨⟩) ?_
  refine confined_after here.other (by rintro ⟨⟩) (by rintro ⟨⟩) (by rintro ⟨⟩) ?_
  split
  case' isTrue =>
    refine confined_bind (confined_constant here.other (admitOther inside) _ _) fun stored => ?_
  case' isFalse =>
    refine confined_bind (composes_confined.initializer here inside
      (fun _ _ => trivial) _) fun stored => ?_
  all_goals
    refine confined_bind (confined_onListing fun _ _ => Listing.addNamed_within ..) fun id => ?_
    refine confined_get (fun _ _ => rfl) fun _ => ?_
    split
    next fault _ => exact confined_throw (here _ (isFault_scope fault line))
    next =>
      refine confined_bind (confined_modify fun _ _ => rfl) fun _ => ?_
      split
      · exact confined_bind (confined_modify fun _ _ => rfl) fun _ => confined_emit _
      · exact confined_emit _

theorem confined_exit :
    Confined allowed exit := by
  refine confined_get (fun _ _ => rfl) fun state => ?_
  split
  · exact confined_emit _
  · exact confined_bind confined_frame fun _ => confined_emit _

theorem confined_bindParameters
    (here : Admits allowed line)
    (scope : Nat)
    (params : List VarId) :
    Confined allowed (bindParameters scope line params) := by
  induction params with
  | nil => exact confined_pure _
  | cons id rest inductionHypothesis =>
      constructor
      · intro file before
        have same : ∀ change : Variable → Variable,
            (before.within file).listing.modifyVariable id change =
              (before.listing.modifyVariable id change).within file :=
          fun change => Listing.modifyVariable_within id change
        rw [bindParameters_cons, bindParameters_cons,
          show (before.within file).listing.lookup? id = before.listing.lookup? id from rfl]
        rcases before.listing.lookup? id with _ | ⟨number, type, value, preserved, lastUse, storage⟩
        · exact inductionHypothesis.commutes file before
        cases storage with
        | named name isGlobal isParam position placed =>
            dsimp only
            rw [same]
            rw [show ∀ listing : Listing, (listing.within file).scopes = listing.scopes from
              fun _ => rfl]
            rcases (before.listing.modifyVariable id fun v =>
              { v with storage := .named name isGlobal isParam position scope }).scopes.declare scope
                name id with fault | ⟨scopes, reference, isNew⟩
            · rfl
            · exact inductionHypothesis.commutes file
                { before with
                  listing :=
                    { before.listing.modifyVariable id fun v =>
                        { v with storage := .named name isGlobal isParam position scope } with
                      scopes := scopes } }
        | _ => exact inductionHypothesis.commutes file before
      · intro before failure failed
        rw [bindParameters_cons] at failed
        split at failed
        · dsimp only at failed
          split at failed
          next fault _ =>
            cases failed
            exact here _ (isFault_scope fault line)
          · exact inductionHypothesis.fails _ failure failed
        · exact inductionHypothesis.fails _ failure failed

theorem confined_moduleVariables
    (admits : ∀ line ∈ linesOfBody stmts, Admits allowed line) :
    Confined allowed (moduleVariables stmts) := by
  induction stmts with
  | nil => exact confined_pure _
  | cons first rest inductionHypothesis =>
      rw [linesOfBody, List.forall_mem_append] at admits
      cases first with
      | declare line name type initial =>
          have inside := admits.1
          rw [Stmt.lines, List.forall_mem_cons] at inside
          exact confined_bind (confined_declare inside.1 inside.2 _ _) fun _ =>
            inductionHypothesis admits.2
      | _ => exact inductionHypothesis admits.2

variable
    {params : List Param}

theorem confined_parameters
    (admits : ∀ line ∈ params.map Param.line, AdmitsOther allowed line)
    (position : Nat) :
    Confined allowed (parameters position params) := by
  induction params generalizing position with
  | nil => exact confined_pure _
  | cons param rest inductionHypothesis =>
      rw [List.map_cons, List.forall_mem_cons] at admits
      unfold parameters
      refine confined_after admits.1 (by rintro ⟨⟩) (by rintro ⟨⟩) (by rintro ⟨⟩) ?_
      refine confined_bind (confined_onListing fun _ _ => Listing.addNamed_within ..) fun _ => ?_
      exact confined_bind (inductionHypothesis admits.2 _) fun _ => confined_pure _

theorem confined_declareFunction
    (here : AdmitsOther allowed line)
    (inside : ∀ line ∈ params.map Param.line, AdmitsOther allowed line)
    (name : String)
    (result : Ty) :
    Confined allowed (declareFunction line name params result) := by
  have declares : ∀ (signature : Signature) (ids : List VarId), Confined allowed (do
      if signature.isEntry && !ids.isEmpty then
        fail .entryParameters line
      if ((← get).listing.function? name).isSome then
        fail (.duplicateFunction name) line
      modify fun state =>
        { state with
          listing := { state.listing with
            functions := state.listing.functions ++
              [{ signature := signature, calls := 0, scope := none, firstNode := 0,
                 nodeCount := 0 }] } }) := by
    intro signature ids
    refine confined_after here nofun nofun nofun ?_
    refine confined_get (fun _ _ => rfl) fun _ => ?_
    exact confined_after here nofun nofun nofun (confined_modify fun _ _ => rfl)
  exact confined_bind (confined_parameters inside _) fun ids => declares _ ids

theorem confined_moduleFunctions
    (admits : ∀ line ∈ linesOfBody stmts, AdmitsOther allowed line) :
    Confined allowed (moduleFunctions stmts) := by
  induction stmts with
  | nil => exact confined_pure _
  | cons first rest inductionHypothesis =>
      rw [linesOfBody, List.forall_mem_append] at admits
      cases first with
      | function line name params result bodyLine body =>
          have inside := admits.1
          rw [Stmt.lines, List.forall_mem_cons, List.forall_mem_append] at inside
          exact confined_bind (confined_declareFunction inside.1 inside.2.1 _ _) fun _ =>
            inductionHypothesis admits.2
      | _ => exact inductionHypothesis admits.2

/-- Beside the faults on its lines a program may be without an entry function. -/
theorem confined_declarations
    (admits : ∀ line ∈ linesOfBody program.statements, Admits allowed line)
    (noEntry : allowed (LoweringFault.missingEntry.failure 0)) :
    Confined allowed (declarations program) := by
  refine confined_bind (confined_moduleVariables admits) fun _ => ?_
  refine confined_bind (confined_moduleFunctions (admitOther admits)) fun _ => ?_
  refine confined_get (fun _ _ => rfl) fun _ => ?_
  split
  · exact confined_throw noEntry
  · exact confined_pure _

end Declarations

/-!
## Lowering that sets no label
-/

section Refusals

/-- A refusal that is reported, for another reason than a label that is set already. -/
def IsRefusal (failure : Failure) : Prop :=
  failure.IsReported ∧ failure.code ≠ .duplicateLabel

/-- Faults on a line are reported, and are no labels that are set twice. -/
theorem admits_isRefusal
    (line : Nat) :
    Admits IsRefusal line := by
  rintro _ ⟨code, message, rfl, noLabel, -⟩
  exact ⟨rfl, noLabel⟩

/-- A step that is refused only for other reasons than a label that is set already. -/
abbrev SparesLabels (step : Lower α) : Prop :=
  AlwaysFailsWith IsRefusal step

theorem sparesLabels_fail
    {fault : LoweringFault}
    (other : fault.code ≠ .duplicateLabel) :
    SparesLabels (fail fault line : Lower α) :=
  fun _ => failsWith_throw ⟨rfl, other⟩

theorem sparesLabels_emit
    (node : Node) :
    SparesLabels (emit node) :=
  (confined_emit node).fails

theorem sparesLabels_condition
    (test : Option Condition)
    (whenTrue whenFalse : String)
    (falseFollows : Bool) :
    SparesLabels (condition test whenTrue whenFalse falseFollows) :=
  (composes_confined.condition (fun line _ => admits_isRefusal line) (fun _ _ => trivial)
    _ _ _).fails

theorem sparesLabels_declare
    (line : Nat)
    (name : String)
    (type : Ty)
    (initial : Option Expr) :
    SparesLabels (declare line name type initial) :=
  (confined_declare (admits_isRefusal line) (fun line _ => admits_isRefusal line) _ _).fails

theorem sparesLabels_assign
    (line : Nat)
    (name : String)
    (index : Option Expr)
    (expr : Expr) :
    SparesLabels (assign line name index expr) :=
  (composes_confined.assign (admits_isRefusal line) (fun line _ => admits_isRefusal line)
    (fun line _ => admits_isRefusal line) fun _ _ => trivial).fails

theorem sparesLabels_callStatement
    (line : Nat)
    (name : String)
    (builtin : Bool)
    (given : List Expr) :
    SparesLabels (callStatement line name builtin given) :=
  (composes_confined.callStatement (admits_isRefusal line) (fun line _ => admits_isRefusal line)
    (fun _ _ => trivial) _ _).fails

theorem sparesLabels_leave
    (line : Nat)
    (result : Option Expr) :
    SparesLabels (leave line result) :=
  (composes_confined.leave (admits_isRefusal line) (fun line _ => admits_isRefusal line)
    fun _ _ => trivial).fails

theorem sparesLabels_exit :
    SparesLabels exit :=
  confined_exit.fails

theorem sparesLabels_bindParameters
    (scope line : Nat)
    (params : List VarId) :
    SparesLabels (bindParameters scope line params) :=
  (confined_bindParameters (admits_isRefusal line) _ _).fails

theorem sparesLabels_declarations
    (program : Program) :
    SparesLabels (declarations program) :=
  (confined_declarations (fun line _ => admits_isRefusal line) ⟨rfl, nofun⟩).fails

theorem sparesLabels_atLine
    {before : LoweringState}
    (line : Nat)
    (spares : FailsWith IsRefusal step before) :
    FailsWith IsRefusal (atLine line step) before := by
  intro failure failed
  unfold atLine at failed
  cases run : step before with
  | ok result => simp [run] at failed
  | error other =>
      simp only [run, Except.error.injEq] at failed
      subst failed
      simpa [IsRefusal] using spares other run

end Refusals

end Lower

/-!
## Where lowering is refused

Every statement is lowered so that a failure in it that has no line gets that of the statement. So
where the bodies of a program are refused, they are refused for one of its lines, a label at the
ends of a function apart. Lowering does the same in every file.
-/

/-- A failure told for one of some lines, other than a missing entry function. -/
def Failure.IsPlaced (known : Nat → Prop) (failure : Failure) : Prop :=
  ∃ (code : Code) (line : Nat) (message : String),
    failure = .report code line message ∧ known line ∧ code ≠ .missingEntry

/-- One of some lines, or none. -/
def orNone (known : Nat → Prop) (line : Nat) : Prop :=
  line = 0 ∨ known line

variable
    {known : Nat → Prop}

/-- A line is given to a failure without one. -/
theorem Failure.IsPlaced.atLine
    (isPlaced : failure.IsPlaced (orNone known))
    (here : known line) :
    (failure.atLine line).IsPlaced known := by
  obtain ⟨code, placed, message, rfl, isKnown, other⟩ := isPlaced
  by_cases unplaced : placed = 0
  · subst unplaced
    exact ⟨code, line, message, rfl, here, other⟩
  · refine ⟨code, placed, message, ?_, isKnown.resolve_left unplaced, other⟩
    simp [Failure.atLine, report, mapDiagnostic, Diagnostic.atLine, unplaced]

/-- A failure told for one of some lines, or a label that is set twice, told without a line. -/
def Failure.IsPlaceable (known : Nat → Prop) (failure : Failure) : Prop :=
  failure.IsPlaced known ∨ ∃ name, failure = (LoweringFault.duplicateLabel name).failure 0

theorem Failure.IsPlaceable.atLine
    (isPlaceable : failure.IsPlaceable known)
    (here : known line) :
    (failure.atLine line).IsPlaced known := by
  refine IsPlaced.atLine ?_ here
  rcases isPlaceable with ⟨code, placed, message, rfl, isKnown, other⟩ | ⟨name, rfl⟩
  · exact ⟨code, placed, message, rfl, .inr isKnown, other⟩
  · exact ⟨_, 0, _, rfl, .inl rfl, nofun⟩

namespace Lower

open Stateful

variable
    {known : Nat → Prop}

theorem admits_isPlaced
    (here : known line) :
    Admits (Failure.IsPlaced known) line := by
  rintro _ ⟨code, message, rfl, -, noEntry⟩
  exact ⟨code, line, message, rfl, here, noEntry⟩

theorem admits_isPlaceable
    (here : known line) :
    Admits (Failure.IsPlaceable known) line :=
  fun failure isFault => .inl (admits_isPlaced here failure isFault)

/-- What is confined to the lines of a statement is placed on them. -/
theorem confined_atLine
    (here : known line)
    (confined : Confined (Failure.IsPlaceable known) step) :
    Confined (Failure.IsPlaced known) (atLine line step) where
  commutes file before := by
    unfold atLine
    rw [confined.commutes file before]
    cases step before <;> rfl
  fails before failure failed := by
    unfold atLine at failed
    cases run : step before with
    | ok result => simp [run] at failed
    | error other =>
        simp only [run, Except.error.injEq] at failed
        subst failed
        exact (confined.fails before other run).atLine here

theorem admitsLabels_isPlaceable :
    AdmitsLabels (Failure.IsPlaceable known) :=
  fun name => .inr ⟨name, rfl⟩

theorem confined_inScope
    {body : Lower Unit}
    (confined : Confined (Failure.IsPlaced known) body)
    (kind : Scope.Kind)
    (exitLabel : String) :
    Confined (Failure.IsPlaceable known) (inScope kind exitLabel body) := by
  refine confined_bind (confined_openScope _ _) fun opened => ?_
  refine confined_bind (confined_label admitsLabels_isPlaceable _) fun _ => ?_
  refine confined_bind (confined_emit _) fun _ => ?_
  refine confined_bind (confined.mono fun _ => .inl) fun _ => ?_
  refine confined_bind (confined_closeScope admitsLabels_isPlaceable) fun _ => ?_
  exact confined_modify fun _ _ => rfl

variable
    {body : List Stmt}

/-- An arm with a condition, and what follows it. -/
theorem confined_arm
    {test : Option Condition}
    {rest : Lower Unit}
    {isLast : Prop}
    [Decidable isLast]
    (tested : ∀ line ∈ linesOfTest test, known line)
    (chosen : Confined (Failure.IsPlaced known) (statements body))
    (others : Confined (Failure.IsPlaceable known) rest)
    (kind : Scope.Kind)
    (whenTrue whenFalse endLabel : String) :
    Confined (Failure.IsPlaceable known) (do
      condition test whenTrue whenFalse false
      label whenTrue
      inScope kind "" (statements body)
      if isLast then
        emit (.jump endLabel none)
      rest) := by
  refine confined_bind (composes_confined.condition (fun line inside =>
    admits_isPlaceable (tested line inside)) (fun _ _ => trivial) _ _ _) fun _ => ?_
  refine confined_bind (confined_label admitsLabels_isPlaceable _) fun _ => ?_
  refine confined_bind (confined_inScope chosen _ _) fun _ => ?_
  dsimp only
  split
  · exact confined_bind (confined_emit _) fun _ => others
  · exact others

/-- Statements are refused for one of their lines, and lowered alike in every file. -/
theorem confined_lowering :
    (∀ statement_ : Stmt, (∀ line ∈ statement_.lines, known line) →
      Confined (Failure.IsPlaceable known) (statement statement_)) ∧
    (∀ branch_ : Branch, (∀ line ∈ branch_.lines, known line) →
      ∀ number arm endLabel,
        Confined (Failure.IsPlaceable known) (branch number arm endLabel branch_)) ∧
    ∀ body : List Stmt, (∀ line ∈ linesOfBody body, known line) →
      Confined (Failure.IsPlaced known) (statements body) := by
  apply Stmt.induction
  case block =>
    intro line body bodyHypothesis inside
    rw [Stmt.lines, List.forall_mem_cons] at inside
    rw [statement]
    exact confined_inScope (bodyHypothesis inside.2) _ _
  case declare =>
    intro line name type value inside
    rw [Stmt.lines, List.forall_mem_cons] at inside
    rw [statement]
    exact confined_declare (admits_isPlaceable inside.1)
      (fun line member => admits_isPlaceable (inside.2 line member)) _ _
  case function =>
    intro line name params result bodyLine body _ inside
    rw [Stmt.lines, List.forall_mem_cons] at inside
    rw [statement]
    exact confined_fail (admits_isPlaceable inside.1).other (by rintro ⟨⟩) (by rintro ⟨⟩)
      (by rintro ⟨⟩)
  case assign =>
    intro line name index value inside
    rw [Stmt.lines, List.forall_mem_cons, List.forall_mem_append] at inside
    rw [statement]
    exact composes_confined.assign (admits_isPlaceable inside.1)
      (fun line member => admits_isPlaceable (inside.2.1 line member))
      (fun line member => admits_isPlaceable (inside.2.2 line member)) fun _ _ => trivial
  case call =>
    intro line callLine name builtin arguments inside
    rw [Stmt.lines, List.forall_mem_cons, List.forall_mem_cons] at inside
    rw [statement]
    exact composes_confined.callStatement (admits_isPlaceable inside.2.1)
      (fun line member => admits_isPlaceable (inside.2.2 line member)) (fun _ _ => trivial) _ _
  case leave =>
    intro line value inside
    rw [Stmt.lines, List.forall_mem_cons] at inside
    rw [statement]
    exact composes_confined.leave (admits_isPlaceable inside.1)
      (fun line member => admits_isPlaceable (inside.2 line member)) fun _ _ => trivial
  case choose =>
    intro line test bodyLine body next bodyHypothesis nextHypothesis inside
    rw [Stmt.lines, List.forall_mem_cons, List.forall_mem_append, List.forall_mem_append] at inside
    obtain ⟨_, ⟨tested, chosen⟩, others⟩ := inside
    rw [statement]
    refine confined_bind (confined_onListing fun _ _ => rfl) fun number => ?_
    refine confined_bind (confined_label admitsLabels_isPlaceable _) fun _ => ?_
    exact confined_arm tested (bodyHypothesis chosen)
      (confined_bind (nextHypothesis others _ _ _) fun _ =>
        confined_label admitsLabels_isPlaceable _) _ _ _ _
  case loop =>
    intro line test bodyLine body bodyHypothesis inside
    rw [Stmt.lines, List.forall_mem_cons, List.forall_mem_append] at inside
    obtain ⟨_, tested, repeated⟩ := inside
    rw [statement]
    refine confined_bind (confined_onListing fun _ _ => rfl) fun number => ?_
    refine confined_bind (confined_emit _) fun _ => ?_
    refine confined_bind (confined_label admitsLabels_isPlaceable _) fun _ => ?_
    refine confined_bind (confined_inScope (bodyHypothesis repeated) _ _) fun _ => ?_
    refine confined_bind (confined_label admitsLabels_isPlaceable _) fun _ => ?_
    refine confined_bind (composes_confined.condition (fun line member =>
      admits_isPlaceable (tested line member)) (fun _ _ => trivial) _ _ _) fun _ => ?_
    exact confined_label admitsLabels_isPlaceable _
  case exit =>
    intro line _
    rw [statement]
    exact confined_exit
  case none =>
    intro _ number arm endLabel
    rw [branch]
    exact confined_pure _
  case elif =>
    intro line test bodyLine body next bodyHypothesis nextHypothesis inside number arm endLabel
    rw [Branch.lines, List.forall_mem_cons, List.forall_mem_append, List.forall_mem_append]
      at inside
    obtain ⟨_, ⟨tested, chosen⟩, others⟩ := inside
    rw [branch]
    refine confined_bind (confined_label admitsLabels_isPlaceable _) fun _ => ?_
    exact confined_arm tested (bodyHypothesis chosen) (nextHypothesis others _ _ _) _ _ _ _
  case otherwise =>
    intro line bodyLine body bodyHypothesis inside number arm endLabel
    rw [Branch.lines, List.forall_mem_cons] at inside
    rw [branch]
    refine confined_bind (confined_label admitsLabels_isPlaceable _) fun _ => ?_
    exact confined_inScope (bodyHypothesis inside.2) _ _
  case nil =>
    intro _
    rw [statements]
    exact confined_pure _
  case cons =>
    intro first rest firstHypothesis restHypothesis inside
    rw [linesOfBody, List.forall_mem_append] at inside
    rw [statements]
    refine confined_bind (confined_atLine (inside.1 _ first.line_mem_lines)
      (firstHypothesis inside.1)) fun _ => ?_
    exact restHypothesis inside.2

theorem confined_functionBody
    {function : Signature}
    (here : known function.line)
    (inside : ∀ line ∈ linesOfBody body, known line) :
    Confined (Failure.IsPlaceable known) (functionBody function body) := by
  unfold functionBody
  refine confined_bind (confined_modify fun _ _ => rfl) fun _ => ?_
  refine confined_bind (confined_emit _) fun _ => ?_
  refine confined_bind (confined_openScope _ _) fun opened => ?_
  refine confined_bind (confined_modify fun _ _ => rfl) fun _ => ?_
  refine confined_bind (confined_emit _) fun _ => ?_
  refine confined_bind (confined_label admitsLabels_isPlaceable _) fun _ => ?_
  refine confined_bind (confined_emit _) fun _ => ?_
  refine confined_bind (confined_bindParameters (admits_isPlaceable here) _ _) fun _ => ?_
  refine confined_bind ((confined_lowering.2.2 body inside).mono fun _ => .inl) fun _ => ?_
  refine confined_bind (confined_closeScope admitsLabels_isPlaceable) fun _ => ?_
  refine confined_bind (confined_emit _) fun _ => ?_
  refine confined_bind (confined_emit _) fun _ => ?_
  refine confined_bind (confined_modify fun _ _ => rfl) fun _ => ?_
  exact confined_modify fun _ _ => rfl

end Lower

namespace Lowering

/-- Bodies are lowered alike in every file. -/
theorem bodies_within
    {interrupted : Nat → Bool}
    {number : Nat}
    {state : LoweringState}
    (file : String) :
    bodies interrupted number stmts (state.within file) =
      ((bodies interrupted number stmts state).1,
        (bodies interrupted number stmts state).2.map (LoweringState.within file)) := by
  induction stmts generalizing number state with
  | nil => rfl
  | cons first rest inductionHypothesis =>
      cases first with
      | declare line name type initial => exact inductionHypothesis
      | function line name params result bodyLine body =>
          rw [bodies, bodies]
          by_cases isInterrupted : interrupted number = true
          · rw [if_pos isInterrupted, if_pos isInterrupted]
            rfl
          rw [if_neg isInterrupted, if_neg isInterrupted,
            show (state.within file).listing.function? name = state.listing.function? name from rfl]
          cases state.listing.function? name with
          | none => rfl
          | some function =>
              have confined : Lower.Confined (Failure.IsPlaceable fun _ => True)
                  (Lower.functionBody function.signature body) :=
                Lower.confined_functionBody trivial fun _ _ => trivial
              simp only [confined.commutes file state]
              cases Lower.functionBody function.signature body state with
              | error failure => rfl
              | ok pair =>
                  show (name :: (bodies interrupted (number + 1) rest (pair.2.within file)).1,
                    (bodies interrupted (number + 1) rest (pair.2.within file)).2) = _
                  rw [inductionHypothesis]
      | _ => rfl

end Lowering

/-- A program that is lowered in one file is lowered to the same listing in every other. -/
theorem Program.lower_within
    {listing : Listing}
    (lowered : program.lower = .ok listing)
    (file : String) :
    ({ program with file := file } : Program).lower = .ok (listing.within file) := by
  have declares : Lower.Confined (fun _ => True) (Lower.declarations program) :=
    Lower.confined_declarations (fun _ _ _ _ => trivial) trivial
  unfold Program.lower Lowering.ofProgram at lowered ⊢
  have same : Lower.declarations { program with file := file } (Lower.start file) =
      Lower.declarations program ((Lower.start program.file).within file) := rfl
  dsimp only
  rw [same, declares.commutes file]
  cases declared : Lower.declarations program (Lower.start program.file) with
  | error failure => simp [declared] at lowered
  | ok pair =>
      simp only [declared] at lowered
      simp only [Except.map, Lowering.bodies_within]
      cases run : (Lowering.bodies (fun _ => false) 0 program.statements pair.2).2 with
      | error failure => simp [run] at lowered
      | ok final =>
          simp only [run, Except.ok.injEq] at lowered
          subst lowered
          rfl

end IlsCompiler
