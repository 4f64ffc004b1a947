import IlsCompiler.Proofs.Lowering.LexicalLookups

namespace IlsCompiler

/-!
# Refusals for a name

A name is refused only where the tree is to blame for it: as undeclared where it is used and stands
for nothing, and as declared already where it is declared and stands for something. Expressions and
simple statements are refused for the names in them and stay at their point of the function; in
blocks, choices and loops what the parts before come to is known from how names are looked up.
-/

/-- A failure that is about a name has its reason among some moments of a function. -/
structure Failure.Blames (globals : List String) (moments : List Moment) (failure : Failure) :
    Prop where
  use : failure.code = .undeclaredVariable →
    ∃ point name, .use point name ∈ moments ∧ point.candidates globals name = []
  declaration : failure.code = .duplicateVariable →
    ∃ point name, .declaration point name ∈ moments ∧ point.candidates globals name ≠ []

namespace Failure

variable
    {globals : List String}
    {moments more : List Moment}
    {failure other : Failure}

theorem blames_of_other
    (noUse : failure.code ≠ .undeclaredVariable)
    (noDeclaration : failure.code ≠ .duplicateVariable) :
    failure.Blames globals moments :=
  ⟨fun isUse => (noUse isUse).elim, fun isDeclaration => (noDeclaration isDeclaration).elim⟩

theorem Blames.of_code
    (blames : failure.Blames globals moments)
    (same : other.code = failure.code) :
    other.Blames globals moments :=
  ⟨fun isUse => blames.use (same.symm.trans isUse),
    fun isDeclaration => blames.declaration (same.symm.trans isDeclaration)⟩

theorem Blames.mono
    (blames : failure.Blames globals moments)
    (inside : moments ⊆ more) :
    failure.Blames globals more where
  use isUse := by
    obtain ⟨point, name, member, noCandidate⟩ := blames.use isUse
    exact ⟨point, name, inside member, noCandidate⟩
  declaration isDeclaration := by
    obtain ⟨point, name, member, hasCandidate⟩ := blames.declaration isDeclaration
    exact ⟨point, name, inside member, hasCandidate⟩

end Failure

namespace Lower

open Stateful LoweringState

variable
    {name : String}
    {test : Option Condition}

section Steps

variable
    {globals : List String}
    {moments : List Moment}

theorem admitsOther_blames
    (line : Nat) :
    AdmitsOther (Failure.Blames globals moments) line :=
  fun _ isOther => Failure.blames_of_other isOther.2.1 isOther.2.2

theorem admitsLabels_blames :
    AdmitsLabels (Failure.Blames globals moments) :=
  fun _ => Failure.blames_of_other nofun nofun

variable
    {before : LoweringState}

theorem blames_atLine
    {step : Lower α}
    (line : Nat)
    (fails : FailsWith (Failure.Blames globals moments) step before) :
    FailsWith (Failure.Blames globals moments) (atLine line step) before := by
  intro failure failed
  unfold atLine at failed
  cases run : step before with
  | ok result => simp [run] at failed
  | error other =>
      simp only [run, Except.error.injEq] at failed
      subst failed
      exact (fails other run).of_code (Failure.code_atLine _ _)

theorem pure_frame
    (before : LoweringState) :
    (StateT.pure (before.frames.headD .outermost) before : Except Failure _) =
      .ok (before.frames.headD .outermost, before) :=
  rfl

theorem resolve_unseen
    (line : Nat)
    (unseen : before.listing.scopes.lookup? before.scope name = none) :
    resolve name line before = .error ((ScopeFault.undeclared name).failure line) := by
  have refused : before.listing.scopes.resolve before.scope name = .error (.undeclared name) := by
    rw [ScopeTree.resolve, unseen]
  simp only [resolve, bind, StateT.bind, get, getThe, MonadStateOf.get, StateT.get, pure, Except.pure,
    Except.bind, frame]
  rw [pure_frame]
  dsimp only
  rw [show (before.frames.headD .outermost).scope = before.scope from rfl, refused]
  rfl

theorem resolve_seen
    (line : Nat)
    {id : VarId}
    {v : Variable}
    (seen : before.listing.scopes.lookup? before.scope name = some id)
    (found : before.listing.lookup? id = some v)
    (isNamed : v.storage.isNamed) :
    resolve name line before = .ok (v, before) := by
  have known : before.listing.scopes.resolve before.scope name = .ok id := by
    rw [ScopeTree.resolve, seen]
  simp only [resolve, bind, StateT.bind, get, getThe, MonadStateOf.get, StateT.get, pure, Except.pure,
    Except.bind, frame]
  rw [pure_frame]
  dsimp only
  rw [show (before.frames.headD .outermost).scope = before.scope from rfl, known]
  dsimp only
  rw [found]
  dsimp only
  cases isStorage : v.storage with
  | named => rfl
  | _ =>
      rw [isStorage] at isNamed
      cases isNamed
/--
A step that stays at a point of a function: where it is refused for a name, some moments are to
blame, and behind it the open scopes show what they showed.
-/
def Upholds (globals : List String) (referents : Referents) (point : InForce)
    (moments : List Moment) (step : Lower α) : Prop :=
  ∀ before, Knows globals referents before point →
    Ensures (Failure.Blames globals moments) (fun _ after => Knows globals referents after point)
      step before

variable
    {referents : Referents}
    {point : InForce}

/-- A name that is used at a point is found there, or it is refused and stands for nothing. -/
theorem resolve_upholds
    (line : Nat)
    (isUse : .use point name ∈ moments) :
    Upholds globals referents point moments (resolve name line) := by
  intro before knows
  cases knows.each name with
  | unknown noCandidate unseen =>
      constructor
      · intro failure failed
        rw [resolve_unseen line unseen, Except.error.injEq] at failed
        subst failed
        exact ⟨fun _ => ⟨point, name, isUse, noCandidate⟩, nofun⟩
      · intro _ _ run
        rw [resolve_unseen line unseen] at run
        cases run
  | @known _ _ _ _ seen found isNamed =>
      obtain ⟨w, isFound, rfl⟩ := Option.map_eq_some_iff.mp found
      exact ensures_of_ok (resolve_seen line seen isFound (Variable.isNamed_fixed ▸ isNamed)) knows

/-- Expressions and simple statements stay at their point, where the names in them are used. -/
theorem composes_upholds :
    Composes (fun _ => True) (fun name => .use point name ∈ moments)
      (Upholds globals referents point moments) where
  done _ _ knows := ensures_of_ok rfl knows
  sequence first second before knows :=
    ensures_bind (first before knows) fun value middle => second value middle
  reads _ each before knows := ensures_get (each before before knows)
  plain _ isPlain before knows :=
    { fails := (isPlain.confined (admitsOther_blames _)).fails before
      holds := fun _ _ run => knows.stays (isPlain.stays run) }
  resolves _ isUse := resolve_upholds _ isUse

theorem condition_upholds
    (tested : point.uses (namesOfTest test) ⊆ moments)
    (whenTrue whenFalse : String)
    (falseFollows : Bool) :
    Upholds globals referents point moments (condition test whenTrue whenFalse falseFollows) :=
  composes_upholds.condition (fun _ _ => trivial)
    (fun _ member => tested (List.mem_map_of_mem member)) _ _ _

/-- A check is refused for another reason than a name or passes. -/
theorem failsWith_after
    {allowed : Failure → Prop}
    {refused : Prop}
    [Decidable refused]
    {fault : LoweringFault}
    {line : Nat}
    {next : Unit → Lower β}
    (isAllowed : allowed (fault.failure line))
    (later : FailsWith allowed (next ()) before) :
    FailsWith allowed (if refused then fail fault line >>= next else next ()) before := by
  split
  · exact failsWith_bind (failsWith_throw isAllowed) fun _ _ run => (fail_ok_iff.mp run).elim
  · exact later

/-- A declaration is refused as a second one only where its name stands for something. -/
theorem declare_blames
    {line : Nat}
    {type : Ty}
    {initial : Option Expr}
    (knows : Knows globals referents before point)
    (inside : (Stmt.declare line name type initial).moments point ⊆ moments) :
    FailsWith (Failure.Blames globals moments) (declare line name type initial) before := by
  have isInner : before.listing.scopes.isModule (before.frames.headD .outermost).scope = false :=
    knows.inside.isModule
  have named : ∀ used ∈ namesOfValue initial, .use point used ∈ moments := fun used member =>
    inside (List.mem_append_left _ (List.mem_map_of_mem member))
  unfold declare
  refine failsWith_bind (failsWith_of_ok rfl) fun current _ run => ?_
  obtain ⟨rfl, rfl⟩ := frame_ok_iff.mp run
  refine failsWith_bind (failsWith_of_ok rfl) fun state _ run => ?_
  obtain ⟨rfl, rfl⟩ := get_ok_iff.mp run
  simp only [isInner, Bool.false_and, Bool.not_false, Bool.true_and, Bool.false_eq_true, ↓reduceIte]
  refine failsWith_after (Failure.blames_of_other nofun nofun) ?_
  refine failsWith_after (Failure.blames_of_other nofun nofun) ?_
  have initializes : Upholds globals referents point moments (initializer line type initial) :=
    composes_upholds.initializer trivial (fun _ _ => trivial) named type
  refine failsWith_bind (initializes before knows).fails fun stored between run => ?_
  have later := (initializes before knows).holds stored between run
  have sameScope : between.scope = (before.frames.headD .outermost).scope :=
    (initializer_scopes run).2
  refine failsWith_bind (failsWith_of_ok rfl) fun id _ run => ?_
  obtain ⟨rfl, rfl⟩ := onListing_ok_iff.mp run
  refine failsWith_bind (failsWith_of_ok rfl) fun state _ run => ?_
  obtain ⟨rfl, rfl⟩ := get_ok_iff.mp run
  split
  next fault refused =>
    change between.listing.scopes.declare _ name _ = .error fault at refused
    rw [← sameScope, later.formed.declare_eq later.isInside] at refused
    cases later.each name with
    | unknown _ unseen =>
        rw [unseen] at refused
        cases refused
    | known isCandidate _ seen _ _ =>
        rw [seen] at refused
        simp only [later.notOutermost, ↓reduceIte, Except.error.injEq] at refused
        subst refused
        have isDeclared : .declaration point name ∈ moments :=
          inside (List.mem_append_right _ (List.mem_singleton_self _))
        refine failsWith_throw ⟨nofun, fun _ => ⟨point, name, isDeclared, ?_⟩⟩
        rw [isCandidate]
        exact List.cons_ne_nil _ _
  next =>
    refine failsWith_bind (failsWith_of_ok rfl) fun _ _ _ => ?_
    exact failsWith_bind (failsWith_of_ok rfl) fun _ _ _ => (confined_emit _).fails _

end Steps

section Statements

variable
    {globals : List String}
    {moments : List Moment}
    {referents : Referents}
    {point : InForce}
    {before : LoweringState}
    {body : List Stmt}
    {kind : Scope.Kind}

theorem inScope_blames
    {exitLabel : String}
    (knows : Knows globals referents before point)
    (each : ∀ {state : LoweringState}, Knows globals referents state point →
      FailsWith (Failure.Blames globals moments) (statements body) state) :
    FailsWith (Failure.Blames globals moments) (inScope kind exitLabel (statements body))
      before := by
  unfold inScope
  refine failsWith_bind ((confined_openScope _ _).fails _) fun _ _ run => ?_
  obtain ⟨rfl, rfl⟩ := openScope_ok_iff.mp run
  refine failsWith_bind ((confined_label admitsLabels_blames _).fails _) fun _ _ run => ?_
  obtain ⟨-, rfl⟩ := label_ok_iff.mp run
  refine failsWith_bind ((confined_emit _).fails _) fun _ _ run => ?_
  cases emit_ok_iff.mp run
  refine failsWith_bind (each (knows.entered kind exitLabel)) fun _ _ _ => ?_
  exact failsWith_bind ((confined_closeScope admitsLabels_blames).fails _) fun _ _ _ =>
    alwaysFailsWith_modify _ _

/-- An arm is refused for the names in its condition and in its body, and so is what follows. -/
theorem arm_blames
    {otherwise endLabel : String}
    {isLast : Prop}
    [Decidable isLast]
    {rest : Lower Unit}
    (knows : Knows globals referents before point)
    (tested : point.uses (namesOfTest test) ⊆ moments)
    (each : ∀ {state : LoweringState}, Knows globals referents state point →
      FailsWith (Failure.Blames globals moments) (statements body) state)
    (others : ∀ {referents : Referents} {state : LoweringState},
      Knows globals referents state (point.past (declarationsIn body)) →
        FailsWith (Failure.Blames globals moments) rest state) :
    FailsWith (Failure.Blames globals moments) (do
      condition test name otherwise false
      label name
      inScope kind "" (statements body)
      if isLast then
        emit (.jump endLabel none)
      rest) before := by
  have tests := condition_upholds tested name otherwise false before knows
  refine failsWith_bind tests.fails fun _ between run => ?_
  have behindTest := tests.holds _ _ run
  refine failsWith_bind ((confined_label admitsLabels_blames _).fails _) fun _ _ run => ?_
  obtain ⟨-, rfl⟩ := label_ok_iff.mp run
  have atBody := behindTest.stays (.labelled between name)
  refine failsWith_bind (inScope_blames atBody each) fun _ chosen run => ?_
  have behindBody := (inScope_follows (lowering_follows.2.2 body) run).knows atBody
  dsimp only
  split
  · refine failsWith_bind ((confined_emit _).fails _) fun _ _ run => ?_
    cases emit_ok_iff.mp run
    exact others (behindBody.stays (.appended chosen rfl))
  · exact others behindBody

/-- Statements, arms and bodies are refused for a name only where the tree is to blame for it. -/
theorem lowering_blames :
    (∀ statement_ : Stmt, ∀ {referents : Referents} {point : InForce} {before : LoweringState},
      Knows globals referents before point → statement_.moments point ⊆ moments →
        FailsWith (Failure.Blames globals moments) (statement statement_) before) ∧
    (∀ branch_ : Branch, ∀ {referents : Referents} {point : InForce} {number arm : Nat}
      {endLabel : String} {before : LoweringState},
      Knows globals referents before point → branch_.moments point ⊆ moments →
        FailsWith (Failure.Blames globals moments) (branch number arm endLabel branch_) before) ∧
    ∀ body : List Stmt, ∀ {referents : Referents} {point : InForce} {before : LoweringState},
      Knows globals referents before point → momentsIn point body ⊆ moments →
        FailsWith (Failure.Blames globals moments) (statements body) before := by
  apply Stmt.induction
  case block =>
    intro line body bodyHypothesis referents point before knows inside
    rw [statement]
    exact inScope_blames knows fun known => bodyHypothesis known inside
  case declare =>
    intro line name type value referents point before knows inside
    rw [statement]
    exact declare_blames knows inside
  case function =>
    intro line name params result bodyLine body _ referents point before _ _
    rw [statement]
    exact failsWith_throw (Failure.blames_of_other (by rintro ⟨⟩) (by rintro ⟨⟩))
  case assign =>
    intro line name index value referents point before knows inside
    rw [statement]
    exact (composes_upholds.assign trivial (fun _ _ => trivial) (fun _ _ => trivial)
      (fun used member => inside (List.mem_map_of_mem member)) before knows).fails
  case call =>
    intro line callLine name builtin arguments referents point before knows inside
    rw [statement]
    exact (composes_upholds.callStatement trivial (fun _ _ => trivial)
      (fun used member => inside (List.mem_map_of_mem member)) _ _ before knows).fails
  case leave =>
    intro line value referents point before knows inside
    rw [statement]
    exact (composes_upholds.leave trivial (fun _ _ => trivial)
      (fun used member => inside (List.mem_map_of_mem member)) before knows).fails
  case choose =>
    intro line test bodyLine body next bodyHypothesis nextHypothesis referents point before knows
      inside
    rw [Stmt.moments, List.append_subset, List.append_subset] at inside
    obtain ⟨⟨tested, chosen⟩, others⟩ := inside
    rw [statement]
    refine failsWith_bind (failsWith_of_ok rfl) fun _ _ run => ?_
    obtain ⟨rfl, rfl⟩ := onListing_ok_iff.mp run
    refine failsWith_bind ((confined_label admitsLabels_blames _).fails _) fun _ _ run => ?_
    obtain ⟨-, rfl⟩ := label_ok_iff.mp run
    refine arm_blames (knows.stays (stays_chooseBegun before)) tested
      (fun known => bodyHypothesis known chosen) fun known => ?_
    exact failsWith_bind (nextHypothesis known others) fun _ _ _ =>
      (confined_label admitsLabels_blames _).fails _
  case loop =>
    intro line test bodyLine body bodyHypothesis referents point before knows inside
    rw [Stmt.moments, List.append_subset] at inside
    obtain ⟨repeated, tested⟩ := inside
    rw [statement]
    refine failsWith_bind (failsWith_of_ok rfl) fun _ _ run => ?_
    obtain ⟨rfl, rfl⟩ := onListing_ok_iff.mp run
    refine failsWith_bind ((confined_emit _).fails _) fun _ _ run => ?_
    cases emit_ok_iff.mp run
    refine failsWith_bind ((confined_label admitsLabels_blames _).fails _) fun _ _ run => ?_
    obtain ⟨-, rfl⟩ := label_ok_iff.mp run
    have atBody := knows.stays (stays_loopBegun before)
    refine failsWith_bind (inScope_blames atBody fun known => bodyHypothesis known repeated)
      fun _ looped run => ?_
    have behindBody := (inScope_follows (lowering_follows.2.2 body) run).knows atBody
    refine failsWith_bind ((confined_label admitsLabels_blames _).fails _) fun _ _ run => ?_
    obtain ⟨-, rfl⟩ := label_ok_iff.mp run
    refine failsWith_bind (Ensures.fails (condition_upholds tested _ _ _ _
      (behindBody.stays (.labelled looped _)))) fun _ _ _ => ?_
    exact (confined_label admitsLabels_blames _).fails _
  case exit =>
    intro line referents point before _ _
    rw [statement]
    exact confined_exit.fails _
  case none =>
    intro referents point number arm endLabel before _ _
    rw [branch]
    exact alwaysFailsWith_pure _ _
  case elif =>
    intro line test bodyLine body next bodyHypothesis nextHypothesis referents point number arm
      endLabel before knows inside
    rw [Branch.moments, List.append_subset, List.append_subset] at inside
    obtain ⟨⟨tested, chosen⟩, others⟩ := inside
    rw [branch]
    refine failsWith_bind ((confined_label admitsLabels_blames _).fails _) fun _ _ run => ?_
    obtain ⟨-, rfl⟩ := label_ok_iff.mp run
    exact arm_blames (knows.stays (.labelled _ _)) tested
      (fun known => bodyHypothesis known chosen) fun known => nextHypothesis known others
  case otherwise =>
    intro line bodyLine body bodyHypothesis referents point number arm endLabel before knows inside
    rw [branch]
    refine failsWith_bind ((confined_label admitsLabels_blames _).fails _) fun _ _ run => ?_
    obtain ⟨-, rfl⟩ := label_ok_iff.mp run
    exact inScope_blames (knows.stays (.labelled _ _)) fun known => bodyHypothesis known inside
  case nil =>
    intro referents point before _ _
    rw [statements]
    exact alwaysFailsWith_pure _ _
  case cons =>
    intro first rest firstHypothesis restHypothesis referents point before knows inside
    rw [momentsIn, List.cons_subset, List.append_subset] at inside
    rw [statements]
    refine failsWith_bind (blames_atLine _ (firstHypothesis knows inside.2.1)) fun _ _ run => ?_
    have behindFirst := (lowering_follows.1 first (atLine_ok_iff.mp run)).knows knows
    exact restHypothesis behindFirst inside.2.2

end Statements

end Lower

end IlsCompiler
