import IlsCompiler.Proofs.Lowering.Growth

namespace IlsCompiler

/-!
# Lowering statements that succeed

What the state is behind a statement, a condition or a scope that lowering accepts,
and what was checked on the way.
-/

namespace Comparison

/-- The right side of a term; a term without one is compared with one. -/
def second (term : Comparison) : Expr :=
  term.right.getD (.literal term.line (.scalar .int (toString (1 : Int))))

/-- The operator of a term; a term without a right side tests for equality. -/
def test? (term : Comparison) : Option CmpOp :=
  match term.right with
  | none => some .equal
  | some _ => term.op

end Comparison

namespace LoweringState

/-- The frame of a scope that is opened next. -/
def newFrame (state : LoweringState) (kind : Scope.Kind) (exitLabel : String) : Frame :=
  let labels := Lower.scopeLabels kind state.listing.scopes.size state.function
  { scope := state.listing.scopes.size, kind := kind, startLabel := labels.1,
    endLabel := labels.2, exitLabel := exitLabel, temporaries := [], locals := [] }

/-- The state in which a scope has been opened. -/
def opened (state : LoweringState) (kind : Scope.Kind) (exitLabel : String) : LoweringState :=
  { state with
    listing := { state.listing with
      scopes := (state.listing.scopes.addChild state.scope kind).1 }
    frames := state.newFrame kind exitLabel :: state.frames }

/-- The state behind the first nodes of a new scope. -/
def entered (state : LoweringState) (kind : Scope.Kind) (exitLabel : String) : LoweringState :=
  ((state.opened kind exitLabel).labelled (state.newFrame kind exitLabel).startLabel).appended
    (.openScope state.listing.scopes.size kind)

/-- The innermost open scope. -/
def innermost (state : LoweringState) : Frame :=
  state.frames.headD .outermost

/-- The state in which everything the innermost scope holds has been destroyed. -/
def emptied (state : LoweringState) : LoweringState :=
  (state.innermost.temporaries ++ state.innermost.locals).foldl
    (fun current id => current.appended (.destroy id)) state

/-- The state without its innermost open scope. -/
def popped (state : LoweringState) : LoweringState :=
  { state with frames := state.frames.tail }

/-- The state in which a local variable has been added, bound and declared. -/
def withLocal (state : LoweringState) (name : String) (type : Ty) (value : Value)
    (line : Nat) : LoweringState :=
  let id := state.listing.vars.size + 1
  let added := (state.listing.addNamed name type value false false 0 state.scope).1
  { state with
    listing := { added with scopes := added.scopes.bind state.scope name id }
    frames := state.frames.modifyHead fun current =>
      { current with locals := current.locals ++ [id] } }.appended (.declare id line)

/-- The state in which a global variable has been added, bound and declared. -/
def withGlobal (state : LoweringState) (name : String) (type : Ty) (value : Value)
    (line : Nat) : LoweringState :=
  let id := state.listing.vars.size + 1
  let added := (state.listing.addNamed name type value true false 0 state.scope).1
  { state with
    listing := { added with
      scopes := { added.scopes.bind state.scope name id with
        moduleNames := added.scopes.moduleNames ++ [(name, id)] } } }.appended (.declare id line)

/-- The state in which a text has been entered in the string table. -/
def withString (state : LoweringState) (text : Bytes) : LoweringState :=
  { state with
    listing := { state.listing with strings := (state.listing.strings.intern text).1 } }

/-- The label that leaving the innermost loop jumps to; without a loop, that of the scope. -/
def exitTarget (state : LoweringState) : String :=
  match Lower.enclosingFrame? .loop state.frames with
  | some around => around.exitLabel
  | none => state.innermost.endLabel

/-- The state in which a number for labels has been taken. -/
def numbered (state : LoweringState) : LoweringState :=
  { state with
    listing := { state.listing with labelCount := state.listing.labelCount + 1 } }

end LoweringState

namespace Lower

open Stateful

variable
    {before after : LoweringState}
    {line : Nat}
    {done : Unit}
    {name : String}
    {bodyLine : Nat}

theorem statement_function_ok
    {params : List Param}
    {result : Ty}
    {body : List Stmt} :
    statement (.function line name params result bodyLine body) before = .ok (done, after) ↔
      False := by
  rw [statement, fail_ok_iff]

variable
    {endLabel : String}

theorem branch_none_ok
    {number arm : Nat}
    (lowered : branch number arm endLabel .none before = .ok (done, after)) :
    after = before := by
  rw [branch] at lowered
  exact (pure_ok_iff.mp lowered).2.symm

variable
    {type : Ty}
    {test : Option Condition}

section Conditions

theorem newInteger_ok_iff
    {number : Int}
    {id : VarId} :
    newInteger number before = .ok (id, after) ↔
      id = before.listing.vars.size + 1 ∧
        after = before.withLiteral (.scalar .int (toString number)) :=
  newLiteral_ok_iff

theorem expression_literal_ok_iff
    {constant : Literal}
    {result : Option VarId} :
    expression (.literal line constant) before = .ok (result, after) ↔
      result = some (before.listing.vars.size + 1) ∧ after = before.withLiteral constant := by
  constructor
  · exact expression_literal_ok
  · rintro ⟨rfl, rfl⟩
    rw [expression]
    exact bind_ok_iff.mpr ⟨_, _, newLiteral_ok_iff.mpr ⟨rfl, rfl⟩, rfl⟩

/-- Whether values of a type can be compared. -/
def comparable (type : Ty) : Prop :=
  ¬(type = .str ∨ type.isArray)

theorem require_comparable
    (tested :
      (if type = .str ∨ type.isArray then
        fail (.incomparable type) line
      else
        pure () : Lower Unit) before = .ok (done, after)) :
    comparable type ∧ after = before := by
  split at tested
  · exact (fail_ok_iff.mp tested).elim
  next good => exact ⟨good, (pure_ok_iff.mp tested).2.symm⟩

variable
    {term : Comparison}
    {result : VarId × VarId × CmpOp}

/-- Both sides of a term are lowered before the result of a pending call is copied. -/
theorem comparison_ok
    (lowered : comparison term before = .ok (result, after)) :
    ∃ left middle right between leftOperand copied rightOperand test,
      expression term.left before = .ok (some left, middle) ∧
        expression term.second middle = .ok (some right, between) ∧
        term.test? = some test ∧
        comparable (typeIn between left) ∧ comparable (typeIn between right) ∧
        materialize left term.line between = .ok (leftOperand, copied) ∧
        materialize right term.line copied = .ok (rightOperand, after) ∧
        result = (leftOperand, rightOperand, test) := by
  unfold comparison at lowered
  obtain ⟨left, middle, leftLowered, later⟩ := bind_ok_iff.mp lowered
  -- What follows the right side is the same whether it is written or not.
  have finish : ∀ {right : VarId} {test : CmpOp} {between : LoweringState},
      (do
        [left, right].forM fun id => do
          let type ← typeOf id
          if type = .str ∨ type.isArray then
            fail (.incomparable type) term.line
        let leftOperand ← materialize left term.line
        let rightOperand ← materialize right term.line
        return (leftOperand, rightOperand, test) : Lower _) between = .ok (result, after) →
      ∃ leftOperand copied rightOperand,
        comparable (typeIn between left) ∧ comparable (typeIn between right) ∧
          materialize left term.line between = .ok (leftOperand, copied) ∧
          materialize right term.line copied = .ok (rightOperand, after) ∧
          result = (leftOperand, rightOperand, test) := by
    intro right test between run
    simp only [List.forM_eq_forM, List.forM_cons, List.forM_nil, bind_ok_iff,
      typeOf_ok_iff] at run
    obtain ⟨_, _, ⟨_, _, ⟨_, _, ⟨rfl, rfl⟩, leftTested⟩,
      _, _, ⟨_, _, ⟨rfl, rfl⟩, rightTested⟩, done⟩,
      leftOperand, copied, leftCopied, rightOperand, _, rightCopied, returned⟩ := run
    obtain ⟨leftGood, rfl⟩ := require_comparable leftTested
    obtain ⟨rightGood, rfl⟩ := require_comparable rightTested
    obtain ⟨-, rfl⟩ := pure_ok_iff.mp done
    obtain ⟨rfl, rfl⟩ := pure_ok_iff.mp returned
    exact ⟨leftOperand, copied, rightOperand, leftGood, rightGood, leftCopied, rightCopied, rfl⟩
  unfold Comparison.second Comparison.test?
  cases given : term.right with
  | none =>
      simp only [given, bind_ok_iff, pure_ok_iff, newInteger_ok_iff] at later
      obtain ⟨one, _, ⟨rfl, rfl⟩, _, _, ⟨rfl, rfl⟩, compared⟩ := later
      obtain ⟨leftOperand, copied, rightOperand, checked⟩ := finish compared
      exact ⟨left, middle, _, _, leftOperand, copied, rightOperand, .equal,
        value_ok_iff.mp leftLowered, expression_literal_ok_iff.mpr ⟨rfl, rfl⟩, rfl, checked⟩
  | some expr =>
      simp only [given, bind_ok_iff, pure_ok_iff] at later
      obtain ⟨right, between, rightLowered, _, _, ⟨rfl, rfl⟩, compared⟩ := later
      cases known : term.op with
      | none =>
          simp only [known] at compared
          exact (fail_ok_iff.mp compared).elim
      | some test =>
          simp only [known] at compared
          obtain ⟨leftOperand, copied, rightOperand, checked⟩ := finish compared
          exact ⟨left, middle, right, _, leftOperand, copied, rightOperand, test,
            value_ok_iff.mp leftLowered, value_ok_iff.mp rightLowered, rfl, checked⟩

theorem comparison_computes
    (lowered : comparison term before = .ok (result, after)) :
    before.Computes after := by
  obtain ⟨_, _, _, _, _, _, _, _, leftLowered, rightLowered, _, _, _, leftCopied, rightCopied,
    _⟩ := comparison_ok lowered
  have sides := (expression_computes leftLowered).trans (expression_computes rightLowered)
  exact sides.trans ((materialize_computes leftCopied).trans (materialize_computes rightCopied))

/-- The jump behind a term: to the first label when it holds, or to the second when it fails. -/
def termJump (whenTrue whenFalse : String) (test : CmpOp) (rest : List Comparison)
    (joins : List Logic) : Node :=
  if rest.isEmpty ∨ joins.head? = some .either then
    .jump whenTrue (some test)
  else
    .jump whenFalse (some test.negate)

/-- The state behind a term whose sides have been lowered. -/
def compared (state : LoweringState) (left right : VarId) (line : Nat) (jump : Node) :
    LoweringState :=
  (((state.appended (.compare left right line)).destroyed left).destroyed right).appended jump

variable
    {whenTrue whenFalse : String}
    {joins : List Logic}

theorem conditionTerms_nil_ok
    (lowered : conditionTerms whenTrue whenFalse [] joins before = .ok (done, after)) :
    after = before := by
  rw [conditionTerms] at lowered
  exact (pure_ok_iff.mp lowered).2.symm

theorem conditionTerms_cons_ok
    {rest : List Comparison}
    (lowered : conditionTerms whenTrue whenFalse (term :: rest) joins before = .ok (done, after)) :
    ∃ left right test between,
      comparison term before = .ok ((left, right, test), between) ∧
        conditionTerms whenTrue whenFalse rest joins.tail
          (compared between left right term.line
            (termJump whenTrue whenFalse test rest joins)) = .ok ((), after) := by
  rw [conditionTerms] at lowered
  simp only [bind_ok_iff] at lowered
  obtain ⟨⟨left, right, test⟩, between, sides, _, _, emitted, _, _, leftDestroyed, _, _,
    rightDestroyed, later⟩ := lowered
  cases emit_ok_iff.mp emitted
  cases destroy_ok_iff.mp leftDestroyed
  cases destroy_ok_iff.mp rightDestroyed
  refine ⟨left, right, test, between, sides, ?_⟩
  unfold compared termJump
  split at later
  next decides =>
    obtain ⟨_, _, jumped, others⟩ := bind_ok_iff.mp later
    cases emit_ok_iff.mp jumped
    rw [if_pos decides]
    exact others
  next passes =>
    obtain ⟨_, _, jumped, others⟩ := bind_ok_iff.mp later
    cases emit_ok_iff.mp jumped
    rw [if_neg passes]
    exact others

/-- A condition has terms, and a closing jump unless the second label follows. -/
theorem condition_ok
    {falseFollows : Bool}
    (lowered : condition test whenTrue whenFalse falseFollows before = .ok (done, after)) :
    ∃ chain between,
      test = some chain ∧ chain.terms ≠ [] ∧
        conditionTerms whenTrue whenFalse chain.terms chain.joins before = .ok ((), between) ∧
        after = if falseFollows then between else between.appended (.jump whenFalse none) := by
  unfold condition at lowered
  cases test with
  | none => exact (fail_ok_iff.mp lowered).elim
  | some chain =>
      cases empty : chain.terms.isEmpty with
      | true =>
          simp only [empty, ↓reduceIte] at lowered
          obtain ⟨_, _, failed, -⟩ := bind_ok_iff.mp lowered
          exact (fail_ok_iff.mp failed).elim
      | false =>
          simp only [empty, Bool.false_eq_true, ↓reduceIte] at lowered
          obtain ⟨_, between, terms, closed⟩ := bind_ok_iff.mp lowered
          refine ⟨chain, between, rfl, by simpa using empty, terms, ?_⟩
          cases falseFollows with
          | true =>
              simp only [Bool.not_true, Bool.false_eq_true, ↓reduceIte] at closed
              exact (pure_ok_iff.mp closed).2.symm
          | false =>
              simp only [Bool.not_false, ↓reduceIte] at closed
              exact (emit_ok_iff.mp closed).symm

end Conditions

section Scopes

variable
    {exitLabel : String}
    {kind : Scope.Kind}

theorem openScope_ok_iff
    {current : Frame} :
    openScope kind exitLabel before = .ok (current, after) ↔
      current = before.newFrame kind exitLabel ∧ after = before.opened kind exitLabel := by
  show Except.ok (before.newFrame kind exitLabel, before.opened kind exitLabel) = _ ↔ _
  simp only [Except.ok.injEq, Prod.mk.injEq]
  exact ⟨fun both => ⟨both.1.symm, both.2.symm⟩, fun both => ⟨both.1.symm, both.2.symm⟩⟩

/-- A scope is closed once everything it holds has been destroyed. -/
theorem closeScope_ok_iff
    {done : Unit} :
    closeScope before = .ok (done, after) ↔
      before.innermost.endLabel ∉ before.emptied.listing.labels ∧
        after = before.emptied.labelled before.innermost.endLabel := by
  unfold closeScope LoweringState.emptied
  simp only [bind_ok_iff, frame_ok_iff, destroyAll_ok_iff, label_ok_iff, List.foldl_append]
  constructor
  · rintro ⟨_, _, ⟨rfl, rfl⟩, _, _, rfl, _, _, rfl, fresh, rfl⟩
    exact ⟨fresh, rfl⟩
  · rintro ⟨fresh, rfl⟩
    exact ⟨_, _, ⟨rfl, rfl⟩, (), _, rfl, (), _, rfl, fresh, rfl⟩

theorem popFrame_ok_iff
    {done : Unit} :
    popFrame before = .ok (done, after) ↔ before.popped = after :=
  modify_ok_iff

/-- A body is lowered between the opening and the closing nodes of its scope. -/
theorem inScope_ok
    {body : Lower Unit}
    (lowered : inScope kind exitLabel body before = .ok (done, after)) :
    ∃ between,
      (before.newFrame kind exitLabel).startLabel ∉ before.listing.labels ∧
        body (before.entered kind exitLabel) = .ok ((), between) ∧
        between.innermost.endLabel ∉ between.emptied.listing.labels ∧
        after = (between.emptied.labelled between.innermost.endLabel).popped := by
  unfold inScope at lowered
  simp only [bind_ok_iff, openScope_ok_iff, label_ok_iff, emit_ok_iff, closeScope_ok_iff,
    popFrame_ok_iff] at lowered
  obtain ⟨_, _, ⟨rfl, rfl⟩, _, _, ⟨fresh, rfl⟩, _, _, rfl, _, between, bodyLowered, _, _,
    ⟨endFresh, rfl⟩, rfl⟩ := lowered
  exact ⟨between, fresh, bodyLowered, endFresh, rfl⟩

end Scopes

section Declarations

/-- The value a declaration or assignment stores for a variable that has been lowered. -/
def boundIn (state : LoweringState) (id : VarId) : Value :=
  match state.listing.fixed? id with
  | some v => bound v
  | none => .reference id

/-- What is stored for a variable does not depend on its marks. -/
theorem bound_fixed
    (v : Variable) :
    bound v.fixed = bound v := by
  rcases v with ⟨number, type, value, preserved, lastUse, storage⟩
  unfold bound Variable.fixed
  fun_cases Storage.fixed storage <;> rfl

theorem boundType_fixed
    (v : Variable) :
    boundType v.fixed = boundType v := by
  rcases v with ⟨number, type, value, preserved, lastUse, storage⟩
  unfold boundType Variable.fixed
  fun_cases Storage.fixed storage <;> rfl

/-- The text of a declaration without an initializer. -/
def defaultText (strings : StringTable) (type : Ty) : String :=
  if type = .str then (strings.intern []).2 else type.defaultText

/-- The state in which a variable without an initializer has its text. -/
def defaulted (state : LoweringState) (type : Ty) : LoweringState :=
  if type = .str then state.withString [] else state

theorem defaultValue_ok_iff
    {stored : Value} :
    defaultValue type before = .ok (stored, after) ↔
      stored = .literal (defaultText before.listing.strings type) ∧
        after = defaulted before type := by
  unfold defaultValue defaultText defaulted
  split
  next =>
    show Except.ok (Value.literal (before.listing.strings.intern []).2, before.withString []) =
      _ ↔ _
    simp only [Except.ok.injEq, Prod.mk.injEq, eq_comm]
  next =>
    rw [pure_ok_iff]
    simp only [eq_comm]

variable
    {initial : Option Expr}
    {stored : Value}

theorem initializer_ok
    (lowered : initializer line type initial before = .ok (stored, after)) :
    (initial = none ∧ stored = .literal (defaultText before.listing.strings type) ∧
      after = defaulted before type) ∨
      ∃ expr id,
        initial = some expr ∧ expression expr before = .ok (some id, after) ∧
          assignable type (typeIn after id) line = .ok () ∧ stored = boundIn after id := by
  unfold initializer at lowered
  cases initial with
  | none =>
      obtain ⟨rfl, rfl⟩ := defaultValue_ok_iff.mp lowered
      exact .inl ⟨rfl, rfl, rfl⟩
  | some expr =>
      simp only [bind_ok_iff, value_ok_iff, find?_ok_iff] at lowered
      obtain ⟨id, _, exprLowered, _, between, checked, _, _, ⟨rfl, rfl⟩, returned⟩ := lowered
      obtain ⟨assigned, rfl⟩ := requireAssignable_ok checked
      refine .inr ⟨expr, id, rfl, ?_⟩
      unfold boundIn Listing.fixed?
      cases found : between.listing.lookup? id with
      | some v =>
          simp only [found] at returned
          obtain ⟨rfl, rfl⟩ := pure_ok_iff.mp returned
          refine ⟨exprLowered, assigned, ?_⟩
          rw [found]
          exact (bound_fixed v).symm
      | none =>
          simp only [found] at returned
          obtain ⟨rfl, rfl⟩ := pure_ok_iff.mp returned
          refine ⟨exprLowered, assigned, ?_⟩
          rw [found]
          rfl

theorem defaulted_scopes
    (state : LoweringState)
    (type : Ty) :
    (defaulted state type).listing.scopes = state.listing.scopes := by
  unfold defaulted
  split <;> rfl

theorem defaulted_frames
    (state : LoweringState)
    (type : Ty) :
    (defaulted state type).frames = state.frames := by
  unfold defaulted
  split <;> rfl

/-- What is lowered leaves the scope it stands in the innermost one. -/
theorem scope_of_proceeds
    (proceeded : before.Proceeds after) :
    after.scope = before.scope := by
  have frames := proceeded.frames
  unfold LoweringState.scope
  cases beforeFrames : before.frames with
  | nil =>
      rw [beforeFrames] at frames
      simp [List.map_eq_nil_iff.mp frames]
  | cons first rest =>
      cases afterFrames : after.frames with
      | nil => simp [beforeFrames, afterFrames] at frames
      | cons other others =>
          simp only [beforeFrames, afterFrames, List.map_cons, List.cons.injEq] at frames
          have same : other.bare.scope = first.bare.scope := congrArg Frame.scope frames.1
          exact same

/-- Lowering an initializer leaves the scopes as they are. -/
theorem initializer_scopes
    (lowered : initializer line type initial before = .ok (stored, after)) :
    after.listing.scopes = before.listing.scopes ∧ after.scope = before.scope := by
  rcases initializer_ok lowered with ⟨_, _, rfl⟩ | ⟨_, _, _, exprLowered, _, _⟩
  · unfold LoweringState.scope
    rw [defaulted_scopes, defaulted_frames]
    exact ⟨rfl, rfl⟩
  · have computed := expression_computes exprLowered
    exact ⟨computed.scopes, scope_of_proceeds computed.toProceeds⟩

/-- A local variable is bound behind its initializer, under a name that was free. -/
theorem declare_local_ok
    (isLocal : before.listing.scopes.isModule before.scope = false)
    (lowered : declare line name type initial before = .ok (done, after)) :
    type.isArray = false ∧
      ∃ stored between,
        initializer line type initial before = .ok (stored, between) ∧
          before.listing.scopes.lookup? before.scope name = none ∧
          after = between.withLocal name type stored line := by
  unfold declare at lowered
  simp only [bind_ok_iff, frame_ok_iff, get_ok_iff] at lowered
  obtain ⟨_, _, ⟨rfl, rfl⟩, _, _, ⟨rfl, rfl⟩, later⟩ := lowered
  have sameScope : (before.frames.headD .outermost).scope = before.scope := rfl
  simp only [sameScope, isLocal, Bool.false_and, Bool.false_eq_true, ↓reduceIte, Bool.not_false,
    Bool.true_and] at later
  by_cases unusable : type = .absent ∨ type = .void
  · simp only [unusable, ↓reduceIte] at later
    obtain ⟨_, _, failed, -⟩ := bind_ok_iff.mp later
    exact (fail_ok_iff.mp failed).elim
  simp only [unusable, ↓reduceIte] at later
  cases isArray : type.isArray with
  | true =>
      simp only [isArray, ↓reduceIte] at later
      obtain ⟨_, _, failed, -⟩ := bind_ok_iff.mp later
      exact (fail_ok_iff.mp failed).elim
  | false =>
      simp only [isArray, Bool.false_eq_true, ↓reduceIte, bind_ok_iff, onListing_ok_iff,
        get_ok_iff] at later
      obtain ⟨stored, between, initialized, _, _, ⟨rfl, rfl⟩, _, _, ⟨rfl, rfl⟩, bound⟩ := later
      obtain ⟨sameScopes, sameNumber⟩ := initializer_scopes initialized
      refine ⟨rfl, stored, between, initialized, ?_⟩
      have tree :
          (between.listing.addNamed name type stored false false 0 before.scope).1.scopes =
            before.listing.scopes := sameScopes
      simp only [tree, ScopeTree.declare, isLocal, Bool.false_eq_true, ↓reduceIte] at bound
      cases visible : before.listing.scopes.lookup? before.scope name with
      | some other =>
          simp only [visible] at bound
          exact (throw_ok_iff.mp bound).elim
      | none =>
          simp only [visible, bind_ok_iff, modifyFrame, modify_ok_iff, emit_ok_iff] at bound
          obtain ⟨_, _, rfl, _, _, rfl, rfl⟩ := bound
          refine ⟨rfl, ?_⟩
          unfold LoweringState.withLocal
          rw [sameNumber]
          simp only [tree]
          rfl

/-- The state in which a constant array has been added. -/
def arrayed (state : LoweringState) (type : Ty) (texts : List String) : LoweringState :=
  { state with
    listing := (state.listing.addArray type.element type.length
      (", ".intercalate texts)).1 }

/-- The constant of a global variable is its text: a default, an array, a string or a scalar. -/
theorem constant_ok
    (lowered : constant line name type initial before = .ok (stored, after)) :
    (initial = none ∧ stored = .literal (defaultText before.listing.strings type) ∧
      after = defaulted before type) ∨
      (∃ arrayLine elements texts,
        initial = some (.array arrayLine elements) ∧ type.isArray ∧
          (elements.length : Int) = type.length ∧
          arrayConstants type.element elements = .ok texts ∧
          stored = .literal (", ".intercalate texts) ∧ after = arrayed before type texts) ∨
      (∃ stringLine contents,
        initial = some (.literal stringLine (.string contents)) ∧ type.isArray = false ∧
          stored = .literal (before.listing.strings.intern contents).2 ∧
          after = before.withString contents) ∨
      ∃ expr text given,
        initial = some expr ∧ type.isArray = false ∧
          scalarConstant expr = .ok (text, given) ∧ assignable type given line = .ok () ∧
          stored = .literal text ∧ after = before := by
  unfold constant at lowered
  cases initial with
  | none =>
      obtain ⟨rfl, rfl⟩ := defaultValue_ok_iff.mp lowered
      exact .inl ⟨rfl, rfl, rfl⟩
  | some expr =>
      cases isArray : type.isArray with
      | true =>
          simp only [isArray, ↓reduceIte] at lowered
          cases expr with
          | array arrayLine elements =>
              by_cases sameLength : (elements.length : Int) = type.length
              · simp only [sameLength, ne_eq, not_true_eq_false, ↓reduceIte] at lowered
                cases known : arrayConstants type.element elements with
                | error failure =>
                    simp only [known] at lowered
                    exact (throw_ok_iff.mp lowered).elim
                | ok texts =>
                    simp only [known, bind_ok_iff, onListing_ok_iff, pure_ok_iff] at lowered
                    obtain ⟨_, _, ⟨rfl, rfl⟩, rfl, rfl⟩ := lowered
                    exact .inr (.inl ⟨arrayLine, elements, texts, rfl, rfl, sameLength, known,
                      rfl, rfl⟩)
              · simp only [sameLength, ne_eq, not_false_eq_true, ↓reduceIte] at lowered
                obtain ⟨_, _, failed, -⟩ := bind_ok_iff.mp lowered
                exact (fail_ok_iff.mp failed).elim
          | _ => exact (fail_ok_iff.mp lowered).elim
      | false =>
          simp only [isArray, Bool.false_eq_true, ↓reduceIte] at lowered
          right
          right
          split at lowered
          next literalLine contents =>
            simp only [bind_ok_iff, intern, onListing_ok_iff, pure_ok_iff] at lowered
            obtain ⟨_, _, ⟨rfl, rfl⟩, rfl, rfl⟩ := lowered
            exact .inl ⟨literalLine, contents, rfl, rfl, rfl, rfl⟩
          next =>
            cases known : scalarConstant expr with
            | error failure =>
                simp only [known] at lowered
                exact (throw_ok_iff.mp lowered).elim
            | ok pair =>
                obtain ⟨text, given⟩ := pair
                cases checked : assignable type given line with
                | error failure =>
                    simp only [known, checked] at lowered
                    exact (throw_ok_iff.mp lowered).elim
                | ok =>
                    simp only [known, checked] at lowered
                    obtain ⟨rfl, rfl⟩ := pure_ok_iff.mp lowered
                    exact .inr ⟨_, text, given, rfl, rfl, known, checked, rfl, rfl⟩

/-- Finding the constant of a global variable leaves the scopes as they are. -/
theorem constant_scopes
    (lowered : constant line name type initial before = .ok (stored, after)) :
    after.listing.scopes = before.listing.scopes ∧ after.frames = before.frames := by
  rcases constant_ok lowered with
    ⟨_, _, rfl⟩ | ⟨_, _, _, _, _, _, _, _, rfl⟩ | ⟨_, _, _, _, _, rfl⟩ |
      ⟨_, _, _, _, _, _, _, _, rfl⟩
  · exact ⟨defaulted_scopes _ _, defaulted_frames _ _⟩
  all_goals exact ⟨rfl, rfl⟩

/-- A global variable is declared once: a later declaration of its name changes nothing. -/
theorem declare_module_ok
    (isModule : before.listing.scopes.isModule before.scope = true)
    (lowered : declare line name type initial before = .ok (done, after)) :
    (before.listing.scopes.isModuleName name ∧ after = before) ∨
      (before.listing.scopes.isModuleName name = false ∧
        ∃ stored between,
          constant line name type initial before = .ok (stored, between) ∧
            after = between.withGlobal name type stored line) := by
  unfold declare at lowered
  simp only [bind_ok_iff, frame_ok_iff, get_ok_iff] at lowered
  obtain ⟨_, _, ⟨rfl, rfl⟩, _, _, ⟨rfl, rfl⟩, later⟩ := lowered
  have sameScope : (before.frames.headD .outermost).scope = before.scope := rfl
  simp only [sameScope, isModule, Bool.true_and, Bool.not_true, Bool.false_and,
    Bool.false_eq_true, ↓reduceIte] at later
  cases known : before.listing.scopes.isModuleName name with
  | true =>
      simp only [known, ↓reduceIte] at later
      exact .inl ⟨rfl, (pure_ok_iff.mp later).2.symm⟩
  | false =>
      simp only [known, Bool.false_eq_true, ↓reduceIte] at later
      by_cases unusable : type = .absent ∨ type = .void
      · simp only [unusable, ↓reduceIte] at later
        obtain ⟨_, _, failed, -⟩ := bind_ok_iff.mp later
        exact (fail_ok_iff.mp failed).elim
      simp only [unusable, ↓reduceIte, bind_ok_iff, onListing_ok_iff, get_ok_iff] at later
      obtain ⟨stored, between, found, _, _, ⟨rfl, rfl⟩, _, _, ⟨rfl, rfl⟩, bound⟩ := later
      obtain ⟨sameScopes, sameFrames⟩ := constant_scopes found
      refine .inr ⟨rfl, stored, between, found, ?_⟩
      have tree :
          (between.listing.addNamed name type stored true false 0 before.scope).1.scopes =
            before.listing.scopes := sameScopes
      have unknown : before.listing.scopes.moduleNames.lookup name = none := by
        unfold ScopeTree.isModuleName at known
        simpa using known
      have sameNumber : between.scope = before.scope := by
        unfold LoweringState.scope
        rw [sameFrames]
      simp only [tree, ScopeTree.declare, isModule, ↓reduceIte, unknown, bind_ok_iff,
        modify_ok_iff, emit_ok_iff] at bound
      obtain ⟨_, _, rfl, rfl⟩ := bound
      unfold LoweringState.withGlobal
      rw [sameNumber]
      simp only [tree]
      rfl

end Declarations

section Leaves

/-- An assignment stores once its target, its index and its value have been lowered. -/
theorem assign_ok
    {index : Option Expr}
    {expr : Expr}
    (lowered : assign line name index expr before = .ok (done, after)) :
    ∃ target wanted selected middle id between,
      resolve name line before = .ok (target, before) ∧
        ((index = none ∧ target.type.isArray = false ∧ wanted = target.type ∧ selected = 0 ∧
          middle = before) ∨
          ∃ position,
            index = some position ∧
              elementOf target name position line before = .ok (selected, middle) ∧
              wanted = typeIn middle selected) ∧
        expression expr middle = .ok (some id, between) ∧
        assignable wanted (typeIn between id) line = .ok () ∧
        ((∃ v, between.listing.fixed? id = some v ∧
          after = between.appended (.assign target.id (bound v) (boundType v) selected line)) ∨
          (between.listing.fixed? id = none ∧ after = between)) := by
  unfold assign at lowered
  obtain ⟨target, _, resolved, later⟩ := bind_ok_iff.mp lowered
  obtain ⟨rfl, -⟩ := resolve_ok resolved
  -- What follows the index is the same whether there is one or not.
  have finish : ∀ {wanted : Ty} {selected : VarId} {middle : LoweringState},
      (do
        let id ← value expr
        requireAssignable wanted id line
        match ← find? id with
        | some v => emit (.assign target.id (bound v) (boundType v) selected line)
        | none => pure () : Lower Unit) middle = .ok (done, after) →
      ∃ id between,
        expression expr middle = .ok (some id, between) ∧
          assignable wanted (typeIn between id) line = .ok () ∧
          ((∃ v, between.listing.fixed? id = some v ∧
            after = between.appended (.assign target.id (bound v) (boundType v) selected line)) ∨
            (between.listing.fixed? id = none ∧ after = between)) := by
    intro wanted selected middle run
    simp only [bind_ok_iff, value_ok_iff, find?_ok_iff] at run
    obtain ⟨id, _, exprLowered, _, between, checked, _, _, ⟨rfl, rfl⟩, stored⟩ := run
    obtain ⟨assigned, rfl⟩ := requireAssignable_ok checked
    refine ⟨id, _, exprLowered, assigned, ?_⟩
    unfold Listing.fixed?
    cases found : between.listing.lookup? id with
    | some v =>
        simp only [found] at stored
        refine .inl ⟨v.fixed, rfl, ?_⟩
        rw [bound_fixed, boundType_fixed]
        exact (emit_ok_iff.mp stored).symm
    | none =>
        simp only [found] at stored
        exact .inr ⟨rfl, (pure_ok_iff.mp stored).2.symm⟩
  cases index with
  | none =>
      cases isArray : target.type.isArray with
      | true =>
          simp only [isArray, ↓reduceIte] at later
          obtain ⟨_, _, failed, -⟩ := bind_ok_iff.mp later
          exact (fail_ok_iff.mp failed).elim
      | false =>
          simp only [isArray, Bool.false_eq_true, ↓reduceIte] at later
          obtain ⟨_, _, returned, stored⟩ := bind_ok_iff.mp later
          obtain ⟨rfl, rfl⟩ := pure_ok_iff.mp returned
          obtain ⟨id, between, stores⟩ := finish stored
          exact ⟨target, target.type, 0, _, id, between, resolved,
            .inl ⟨rfl, isArray, rfl, rfl, rfl⟩, stores⟩
  | some position =>
      obtain ⟨selected, _, accessed, typed⟩ := bind_ok_iff.mp later
      obtain ⟨_, _, found, returns⟩ := bind_ok_iff.mp typed
      obtain ⟨rfl, rfl⟩ := typeOf_ok_iff.mp found
      obtain ⟨_, _, returned, stored⟩ := bind_ok_iff.mp returns
      obtain ⟨rfl, rfl⟩ := pure_ok_iff.mp returned
      obtain ⟨id, between, stores⟩ := finish stored
      exact ⟨target, _, selected, _, id, between, resolved,
        .inr ⟨position, rfl, accessed, rfl⟩, stores⟩

/-- A return jumps to the end of the body of its function. -/
theorem leave_ok
    {result : Option Expr}
    (lowered : leave line result before = .ok (done, after)) :
    ∃ function body id between,
      before.function = some function ∧
        enclosingFrame? .function before.frames = some body ∧
        ((result = none ∧ id = 0 ∧ between = before) ∨
          ∃ expr,
            result = some expr ∧ expression expr before = .ok (some id, between) ∧
              assignable function.result (typeIn between id) line = .ok ()) ∧
        after = (between.appended (.leave id line)).appended (.jump body.endLabel none) := by
  unfold leave at lowered
  obtain ⟨_, _, got, later⟩ := bind_ok_iff.mp lowered
  obtain ⟨rfl, rfl⟩ := get_ok_iff.mp got
  cases inFunction : before.function with
  | none =>
      simp only [inFunction] at later
      exact (fail_ok_iff.mp later).elim
  | some function =>
      cases around : enclosingFrame? .function before.frames with
      | none =>
          simp only [inFunction, around] at later
          exact (fail_ok_iff.mp later).elim
      | some body =>
          simp only [inFunction, around] at later
          cases result with
          | none =>
              cases isVoid : function.isVoid with
              | false =>
                  simp only [isVoid, Bool.not_false, ↓reduceIte] at later
                  obtain ⟨_, _, failed, -⟩ := bind_ok_iff.mp later
                  exact (fail_ok_iff.mp failed).elim
              | true =>
                  simp only [isVoid, Bool.not_true, Bool.false_eq_true, ↓reduceIte, bind_ok_iff,
                    pure_ok_iff, emit_ok_iff] at later
                  obtain ⟨_, _, ⟨rfl, rfl⟩, _, _, rfl, rfl⟩ := later
                  exact ⟨function, body, 0, before, rfl, rfl, .inl ⟨rfl, rfl, rfl⟩, rfl⟩
          | some expr =>
              cases isVoid : function.isVoid with
              | true =>
                  simp only [isVoid, ↓reduceIte] at later
                  obtain ⟨_, _, failed, -⟩ := bind_ok_iff.mp later
                  exact (fail_ok_iff.mp failed).elim
              | false =>
                  simp only [isVoid, Bool.false_eq_true, ↓reduceIte, bind_ok_iff, value_ok_iff,
                    pure_ok_iff, emit_ok_iff] at later
                  obtain ⟨id, between, exprLowered, _, _, checked, _, _, ⟨rfl, rfl⟩, _, _, rfl,
                    rfl⟩ := later
                  obtain ⟨assigned, rfl⟩ := requireAssignable_ok checked
                  exact ⟨function, body, id, _, rfl, rfl,
                    .inr ⟨expr, rfl, exprLowered, assigned⟩, rfl⟩

/-- A break jumps out of the innermost loop, or out of the innermost scope without one. -/
theorem exit_ok
    (lowered : exit before = .ok (done, after)) :
    after = before.appended (.jump before.exitTarget none) := by
  unfold exit at lowered
  obtain ⟨_, _, got, later⟩ := bind_ok_iff.mp lowered
  obtain ⟨rfl, rfl⟩ := get_ok_iff.mp got
  unfold LoweringState.exitTarget
  cases around : enclosingFrame? .loop before.frames with
  | some frame =>
      simp only [around] at later
      exact (emit_ok_iff.mp later).symm
  | none =>
      simp only [around, bind_ok_iff, frame_ok_iff, emit_ok_iff] at later
      obtain ⟨_, _, ⟨rfl, rfl⟩, rfl⟩ := later
      rfl

end Leaves

section Control

variable
    {done : Unit}

/-- The words that start the labels of a choice. -/
def chooseStem (number : Nat) : String :=
  "IF" ++ toString number

/-- The words that start the labels of a loop. -/
def loopStem (number : Nat) : String :=
  "WHILE" ++ toString number

/-- Where a condition that fails leads: to the next arm, or behind the choice. -/
def otherwiseLabel (number arm : Nat) (endLabel : String) (next : Branch) : String :=
  if next.exists then armLabel number arm else endLabel

/-- The state behind an arm: when another one follows, it is jumped over. -/
def skipped (state : LoweringState) (endLabel : String) (next : Branch) : LoweringState :=
  if next.exists then state.appended (.jump endLabel none) else state

theorem statements_nil_ok
    (lowered : statements [] before = .ok (done, after)) :
    after = before := by
  rw [statements] at lowered
  exact (pure_ok_iff.mp lowered).2.symm

theorem statements_cons_ok
    {first : Stmt}
    {rest : List Stmt}
    (lowered : statements (first :: rest) before = .ok (done, after)) :
    ∃ between,
      statement first before = .ok ((), between) ∧ statements rest between = .ok ((), after) := by
  rw [statements] at lowered
  obtain ⟨_, between, firstLowered, restLowered⟩ := bind_ok_iff.mp lowered
  exact ⟨between, atLine_ok_iff.mp firstLowered, restLowered⟩

variable
    {body : List Stmt}

theorem statement_block_ok
    (lowered : statement (.block line body) before = .ok (done, after)) :
    inScope .plain "" (statements body) before = .ok ((), after) := by
  rw [statement] at lowered
  exact lowered

variable
    {next : Branch}

/-- The arms of a choice stand one behind the other, the conditions in front of them. -/
theorem statement_choose_ok
    (lowered : statement (.choose line test bodyLine body next) before = .ok (done, after)) :
    let number := before.listing.labelCount
    let stem := chooseStem number
    let endLabel := stem ++ "_END"
    ∃ tested chosen branched,
      (stem ++ "_START") ∉ before.listing.labels ∧
        condition test (stem ++ "_BODY") (otherwiseLabel number 0 endLabel next) false
          (before.numbered.labelled (stem ++ "_START")) = .ok ((), tested) ∧
        (stem ++ "_BODY") ∉ tested.listing.labels ∧
        inScope .ifArm "" (statements body) (tested.labelled (stem ++ "_BODY")) =
          .ok ((), chosen) ∧
        branch number 0 endLabel next (skipped chosen endLabel next) = .ok ((), branched) ∧
        endLabel ∉ branched.listing.labels ∧
        after = branched.labelled endLabel := by
  rw [statement] at lowered
  obtain ⟨_, _, counted, later⟩ := bind_ok_iff.mp lowered
  obtain ⟨rfl, rfl⟩ := onListing_ok_iff.mp counted
  obtain ⟨_, _, started, later⟩ := bind_ok_iff.mp later
  obtain ⟨startFresh, rfl⟩ := label_ok_iff.mp started
  obtain ⟨_, tested, conditioned, later⟩ := bind_ok_iff.mp later
  obtain ⟨_, _, bodyLabelled, later⟩ := bind_ok_iff.mp later
  obtain ⟨bodyFresh, rfl⟩ := label_ok_iff.mp bodyLabelled
  obtain ⟨_, chosen, bodyLowered, later⟩ := bind_ok_iff.mp later
  refine ⟨tested, chosen, ?_⟩
  unfold otherwiseLabel skipped
  split at later
  next more =>
    obtain ⟨_, _, jumped, later⟩ := bind_ok_iff.mp later
    cases emit_ok_iff.mp jumped
    obtain ⟨_, branched, branchLowered, ended⟩ := bind_ok_iff.mp later
    obtain ⟨endFresh, rfl⟩ := label_ok_iff.mp ended
    rw [if_pos more] at conditioned
    simp only [more, ↓reduceIte]
    exact ⟨branched, startFresh, conditioned, bodyFresh, bodyLowered, branchLowered, endFresh,
      rfl⟩
  next last =>
    obtain ⟨_, branched, branchLowered, ended⟩ := bind_ok_iff.mp later
    obtain ⟨endFresh, rfl⟩ := label_ok_iff.mp ended
    rw [if_neg last] at conditioned
    simp only [last, Bool.false_eq_true, ↓reduceIte]
    exact ⟨branched, startFresh, conditioned, bodyFresh, bodyLowered, branchLowered, endFresh,
      rfl⟩

/-- The body of a loop stands in front of its condition. -/
theorem statement_loop_ok
    (lowered : statement (.loop line test bodyLine body) before = .ok (done, after)) :
    let stem := loopStem before.listing.labelCount
    let endLabel := stem ++ "_END"
    ∃ looped tested,
      (stem ++ "_START") ∉ before.listing.labels ∧
        inScope .loop endLabel (statements body)
          ((before.numbered.appended (.jump (stem ++ "_COND") none)).labelled
            (stem ++ "_START")) = .ok ((), looped) ∧
        (stem ++ "_COND") ∉ looped.listing.labels ∧
        condition test (stem ++ "_START") endLabel true (looped.labelled (stem ++ "_COND")) =
          .ok ((), tested) ∧
        endLabel ∉ tested.listing.labels ∧
        after = tested.labelled endLabel := by
  rw [statement] at lowered
  obtain ⟨_, _, counted, later⟩ := bind_ok_iff.mp lowered
  obtain ⟨rfl, rfl⟩ := onListing_ok_iff.mp counted
  simp only [bind_ok_iff, emit_ok_iff, label_ok_iff] at later
  obtain ⟨_, _, rfl, _, _, ⟨startFresh, rfl⟩, _, looped, bodyLowered, _, _,
    ⟨conditionFresh, rfl⟩, _, tested, conditioned, endFresh, rfl⟩ := later
  have labels : (before.numbered.appended
      (.jump (loopStem before.listing.labelCount ++ "_COND") none)).listing.labels =
        before.listing.labels := by
    simp [LoweringState.appended, LoweringState.numbered]
  refine ⟨looped, tested, ?_, bodyLowered, conditionFresh, conditioned, endFresh, rfl⟩
  intro known
  rw [← labels] at known
  exact startFresh known

theorem branch_otherwise_ok
    {number arm bodyLine : Nat}
    (lowered : branch number arm endLabel (.otherwise line bodyLine body) before =
      .ok (done, after)) :
    armLabel number arm ∉ before.listing.labels ∧
      inScope .elseArm "" (statements body) (before.labelled (armLabel number arm)) =
        .ok ((), after) := by
  rw [branch] at lowered
  obtain ⟨_, _, labelled, bodyLowered⟩ := bind_ok_iff.mp lowered
  obtain ⟨fresh, rfl⟩ := label_ok_iff.mp labelled
  exact ⟨fresh, bodyLowered⟩

theorem branch_elif_ok
    {number arm bodyLine : Nat}
    (lowered : branch number arm endLabel (.elif line test bodyLine body next) before =
      .ok (done, after)) :
    let here := armLabel number arm
    ∃ tested chosen,
      here ∉ before.listing.labels ∧
        condition test (here ++ "_BODY") (otherwiseLabel number (arm + 1) endLabel next) false
          (before.labelled here) = .ok ((), tested) ∧
        (here ++ "_BODY") ∉ tested.listing.labels ∧
        inScope .elifArm "" (statements body) (tested.labelled (here ++ "_BODY")) =
          .ok ((), chosen) ∧
        branch number (arm + 1) endLabel next (skipped chosen endLabel next) =
          .ok ((), after) := by
  rw [branch] at lowered
  obtain ⟨_, _, labelled, later⟩ := bind_ok_iff.mp lowered
  obtain ⟨fresh, rfl⟩ := label_ok_iff.mp labelled
  obtain ⟨_, tested, conditioned, later⟩ := bind_ok_iff.mp later
  obtain ⟨_, _, bodyLabelled, later⟩ := bind_ok_iff.mp later
  obtain ⟨bodyFresh, rfl⟩ := label_ok_iff.mp bodyLabelled
  obtain ⟨_, chosen, bodyLowered, later⟩ := bind_ok_iff.mp later
  refine ⟨tested, chosen, fresh, ?_⟩
  unfold otherwiseLabel skipped
  split at later
  next more =>
    obtain ⟨_, _, jumped, branchLowered⟩ := bind_ok_iff.mp later
    cases emit_ok_iff.mp jumped
    rw [if_pos more] at conditioned
    simp only [more, ↓reduceIte]
    exact ⟨conditioned, bodyFresh, bodyLowered, branchLowered⟩
  next last =>
    rw [if_neg last] at conditioned
    simp only [last, Bool.false_eq_true, ↓reduceIte]
    exact ⟨conditioned, bodyFresh, bodyLowered, later⟩

end Control

/-!
## Statements and their parts

What holds along every part of a statement, and from one part on to the next, holds along the
statement as a whole.
-/

/-- Properties of statements, arms and bodies that are handed down to their parts. -/
structure Inherited (one : Stmt → Prop) (arm : Branch → Prop) (many : List Stmt → Prop)
    (test : Option Condition → Prop) : Prop where
  block : ∀ {line body}, one (.block line body) → many body
  choose : ∀ {line condition bodyLine body next},
    one (.choose line condition bodyLine body next) → test condition ∧ many body ∧ arm next
  loop : ∀ {line condition bodyLine body},
    one (.loop line condition bodyLine body) → test condition ∧ many body
  elif : ∀ {line condition bodyLine body next},
    arm (.elif line condition bodyLine body next) → test condition ∧ many body ∧ arm next
  otherwise : ∀ {line bodyLine body}, arm (.otherwise line bodyLine body) → many body
  cons : ∀ {first rest}, many (first :: rest) → one first ∧ many rest

theorem Inherited.always :
    Inherited (fun _ => True) (fun _ => True) (fun _ => True) fun _ => True :=
  ⟨fun _ => trivial, fun _ => ⟨trivial, trivial, trivial⟩, fun _ => ⟨trivial, trivial⟩,
    fun _ => ⟨trivial, trivial, trivial⟩, fun _ => trivial, fun _ => ⟨trivial, trivial⟩⟩

/--
A relation between states that holds along the simple parts of statements and goes on from one part
to the next. It may count the variables that are declared on the way.
-/
structure Composed (one : Stmt → Prop) (test : Option Condition → Prop)
    (along : Nat → LoweringState → LoweringState → Prop) : Prop where
  refl : ∀ state, along 0 state state
  trans : ∀ {first second : Nat} {before between after : LoweringState},
    along first before between → along second between after → along (first + second) before after
  numbered : ∀ state : LoweringState, along 0 state state.numbered
  labelled : ∀ (state : LoweringState) (name : String), along 0 state (state.labelled name)
  jumped : ∀ (state : LoweringState) (target : String),
    along 0 state (state.appended (.jump target none))
  condition : ∀ {tested : Option Condition} {whenTrue whenFalse : String} {falseFollows : Bool}
    {before after : LoweringState},
    test tested → condition tested whenTrue whenFalse falseFollows before = .ok ((), after) →
      along 0 before after
  declare : ∀ {line : Nat} {name : String} {type : Ty} {initial : Option Expr}
    {before after : LoweringState}, one (.declare line name type initial) →
      declare line name type initial before = .ok ((), after) → along 1 before after
  assign : ∀ {line : Nat} {name : String} {index : Option Expr} {expr : Expr}
    {before after : LoweringState}, one (.assign line name index expr) →
      assign line name index expr before = .ok ((), after) → along 0 before after
  call : ∀ {line callLine : Nat} {name : String} {builtin : Bool} {given : List Expr}
    {before after : LoweringState}, one (.call line callLine name builtin given) →
      callStatement callLine name builtin given before = .ok ((), after) → along 0 before after
  leave : ∀ {line : Nat} {result : Option Expr} {before after : LoweringState},
    one (.leave line result) → leave line result before = .ok ((), after) → along 0 before after
  inScope : ∀ {count : Nat} {kind : Scope.Kind} {exitLabel : String} {body : Lower Unit}
    {before after : LoweringState},
    (∀ {before after : LoweringState}, body before = .ok ((), after) → along count before after) →
      inScope kind exitLabel body before = .ok ((), after) → along count before after

namespace Composed

variable
    {one : Stmt → Prop}
    {arm : Branch → Prop}
    {many : List Stmt → Prop}
    {test : Option Condition → Prop}
    {along : Nat → LoweringState → LoweringState → Prop}

theorem skipped
    (composed : Composed one test along)
    (state : LoweringState)
    (endLabel : String)
    (next : Branch) :
    along 0 state (skipped state endLabel next) := by
  unfold Lower.skipped
  split
  · exact composed.jumped _ _
  · exact composed.refl _

/-- The relation holds along every statement, arm and body. -/
theorem lowering
    (composed : Composed one test along)
    (inherited : Inherited one arm many test) :
    (∀ statement_ : Stmt, one statement_ → ∀ {before after : LoweringState},
      statement statement_ before = .ok ((), after) →
        along statement_.declarations before after) ∧
    (∀ branch_ : Branch, arm branch_ → ∀ {number place : Nat} {endLabel : String}
      {before after : LoweringState},
      branch number place endLabel branch_ before = .ok ((), after) →
        along branch_.declarations before after) ∧
    ∀ body : List Stmt, many body → ∀ {before after : LoweringState},
      statements body before = .ok ((), after) → along (declarationsIn body) before after := by
  apply Stmt.induction
  case block =>
    intro line body bodyHypothesis good before after lowered
    exact composed.inScope (bodyHypothesis (inherited.block good)) (statement_block_ok lowered)
  case declare =>
    intro line name type initial good before after lowered
    rw [statement] at lowered
    exact composed.declare good lowered
  case function =>
    intro line name params result bodyLine body _ _ before after lowered
    exact (statement_function_ok.mp lowered).elim
  case assign =>
    intro line name index expr good before after lowered
    rw [statement] at lowered
    exact composed.assign good lowered
  case call =>
    intro line callLine name builtin given good before after lowered
    rw [statement] at lowered
    exact composed.call good lowered
  case leave =>
    intro line result good before after lowered
    rw [statement] at lowered
    exact composed.leave good lowered
  case choose =>
    intro line condition bodyLine body next bodyHypothesis nextHypothesis good before after lowered
    obtain ⟨testGood, bodyGood, nextGood⟩ := inherited.choose good
    obtain ⟨_, _, _, _, tested, _, chosen, branched, _, rfl⟩ := statement_choose_ok lowered
    have tests := composed.trans (composed.trans (composed.numbered before) (composed.labelled _ _))
      (composed.condition testGood tested)
    have bodies := composed.trans (composed.trans tests (composed.labelled _ _))
      (composed.inScope (bodyHypothesis bodyGood) chosen)
    have others := composed.trans (composed.trans bodies (composed.skipped _ _ _))
      (nextHypothesis nextGood branched)
    simpa [Stmt.declarations] using composed.trans others (composed.labelled _ _)
  case loop =>
    intro line condition bodyLine body bodyHypothesis good before after lowered
    obtain ⟨testGood, bodyGood⟩ := inherited.loop good
    obtain ⟨_, _, _, looped, _, tested, _, rfl⟩ := statement_loop_ok lowered
    have bodies := composed.trans (composed.trans (composed.trans (composed.numbered before)
      (composed.jumped _ _)) (composed.labelled _ _))
        (composed.inScope (bodyHypothesis bodyGood) looped)
    have tests := composed.trans (composed.trans bodies (composed.labelled _ _))
      (composed.condition testGood tested)
    simpa [Stmt.declarations] using composed.trans tests (composed.labelled _ _)
  case exit =>
    intro line _ before after lowered
    rw [statement] at lowered
    cases exit_ok lowered
    exact composed.jumped _ _
  case none =>
    intro _ number place endLabel before after lowered
    cases branch_none_ok lowered
    exact composed.refl _
  case elif =>
    intro line condition bodyLine body next bodyHypothesis nextHypothesis good number place endLabel
      before after lowered
    obtain ⟨testGood, bodyGood, nextGood⟩ := inherited.elif good
    obtain ⟨_, _, _, tested, _, chosen, branched⟩ := branch_elif_ok lowered
    have tests := composed.trans (composed.labelled before _) (composed.condition testGood tested)
    have bodies := composed.trans (composed.trans tests (composed.labelled _ _))
      (composed.inScope (bodyHypothesis bodyGood) chosen)
    simpa [Branch.declarations] using
      composed.trans (composed.trans bodies (composed.skipped _ _ _))
        (nextHypothesis nextGood branched)
  case otherwise =>
    intro line bodyLine body bodyHypothesis good number place endLabel before after lowered
    obtain ⟨_, bodyLowered⟩ := branch_otherwise_ok lowered
    simpa [Branch.declarations] using composed.trans (composed.labelled before _)
      (composed.inScope (bodyHypothesis (inherited.otherwise good)) bodyLowered)
  case nil =>
    intro _ before after lowered
    cases statements_nil_ok lowered
    exact composed.refl _
  case cons =>
    intro first rest firstHypothesis restHypothesis good before after lowered
    obtain ⟨firstGood, restGood⟩ := inherited.cons good
    obtain ⟨_, firstLowered, restLowered⟩ := statements_cons_ok lowered
    exact composed.trans (firstHypothesis firstGood firstLowered)
      (restHypothesis restGood restLowered)

/-- A relation that needs no property of the statements holds along every body. -/
theorem statements
    (composed : Composed (fun _ => True) (fun _ => True) along)
    {body : List Stmt}
    {before after : LoweringState}
    (lowered : statements body before = .ok ((), after)) :
    along (declarationsIn body) before after :=
  (composed.lowering .always).2.2 body trivial lowered

end Composed

end Lower

end IlsCompiler
