import IlsCompiler.Proofs.Lowering.Variables
import IlsCompiler.Proofs.Stateful

namespace IlsCompiler

/-!
# Lowering steps that succeed

A step of lowering that succeeds leads from one state to another. This module says
once, for each step, what the later state is and what was checked on the way; all
later proofs read a run of lowering through these statements.
-/

namespace LoweringState

/-- The number of the innermost open scope. -/
def scope (state : LoweringState) : Nat :=
  (state.frames.headD .outermost).scope

/-- The state behind one more node. -/
def appended (state : LoweringState) (node : Node) : LoweringState :=
  { state with listing := Lower.appendNode state.function state.listing node }

/-- The state behind one more label. -/
def labelled (state : LoweringState) (name : String) : LoweringState :=
  { state with
    listing := { state.listing with labels := state.listing.labels ++ [name] } }.appended
      (.label name)

/-- The state in which a temporary has been added and declared. -/
def withTemporary (state : LoweringState) (type : Ty) (value : Value) (isResult : Bool)
    (line : Nat) : LoweringState :=
  let id := state.listing.vars.size + 1
  { state with
    listing := (state.listing.addTemporary type value isResult state.scope).1
    frames := state.frames.modifyHead fun current =>
      { current with temporaries := current.temporaries ++ [id] } }.appended (.declare id line)

/-- Whether a variable is a temporary that some open scope still has to destroy. -/
def Pending (state : LoweringState) (id : VarId) : Prop :=
  ∃ open_ ∈ state.frames, id ∈ open_.temporaries

/-- The state behind the destruction of a pending temporary. -/
def destroyed (state : LoweringState) (id : VarId) : LoweringState :=
  if state.frames.any fun open_ => id ∈ open_.temporaries then
    { state with
      frames := state.frames.map fun (open_ : Frame) =>
        { open_ with temporaries := open_.temporaries.erase id } }.appended (.destroy id)
  else
    state

/-- The call to a function that a state makes next. -/
def nextCall (state : LoweringState) (function : Signature) (arguments : List VarId)
    (line : Nat) : Call :=
  { id := state.listing.callCount, name := function.name, builtin := false,
    function := some function, arguments := arguments, line := line }

/-- The call to a builtin that a state makes next. -/
def nextBuiltinCall (state : LoweringState) (builtin : Builtin) (arguments : List VarId)
    (line : Nat) : Call :=
  { id := state.listing.callCount, name := builtin.name, builtin := true, function := none,
    arguments := arguments, line := line }

/-- The state in which a call to a function has been counted. -/
def counted (state : LoweringState) (function : Signature) : LoweringState :=
  { state with
    listing := { state.listing.modifyFunction function.name fun called =>
      { called with calls := called.calls + 1 } with callCount := state.listing.callCount + 1 } }

/-- The state in which variables are marked to survive a call. -/
def marked (state : LoweringState) (ids : List VarId) : LoweringState :=
  { state with
    listing := ids.foldl (fun listing id =>
      listing.modifyVariable id fun v => { v with preserved := true }) state.listing }

/-- The state in which the result of a call has been added. -/
def withResult (state : LoweringState) (function : Signature) (call : Call) : LoweringState :=
  { state with listing := (state.listing.addResult function call).1 }

/-- The state in which an access to an element has been added. -/
def withElement (state : LoweringState) (array index : VarId) : LoweringState :=
  { state with listing := (state.listing.addElement array index).1 }

/-- The state in which a constant has been added. -/
def withLiteral (state : LoweringState) (value : Literal) : LoweringState :=
  { state with
    listing :=
      match value with
      | .scalar type text => (state.listing.addLiteral type (Bytes.ofString text)).1
      | .string contents => (state.listing.addLiteral .str contents).1 }

end LoweringState

namespace Lower

open Stateful

variable
    {id : VarId}
    {line : Nat}

section Sequencing

variable
    {before after : LoweringState}

theorem fail_ok_iff
    {fault : LoweringFault}
    {result : α} :
    (fail fault line : Lower α) before = .ok (result, after) ↔ False :=
  throw_ok_iff

theorem expression_missing_ok
    {result : Option VarId} :
    expression .missing before = .ok (result, after) ↔ False := by
  rw [expression, fail_ok_iff]

theorem atLine_ok_iff
    {step : Lower α}
    {result : α} :
    atLine line step before = .ok (result, after) ↔ step before = .ok (result, after) := by
  unfold atLine
  cases step before <;> simp

theorem onListing_ok_iff
    {change : Listing → Listing × α}
    {result : α} :
    onListing change before = .ok (result, after) ↔
      (change before.listing).2 = result ∧
        { before with listing := (change before.listing).1 } = after := by
  simp [onListing]

theorem frame_ok_iff
    {result : Frame} :
    frame before = .ok (result, after) ↔
      before.frames.headD .outermost = result ∧ before = after := by
  show Except.ok (before.frames.headD .outermost, before) = _ ↔ _
  simp only [Except.ok.injEq, Prod.mk.injEq]

theorem find?_ok_iff
    {result : Option Variable} :
    find? id before = .ok (result, after) ↔
      before.listing.lookup? id = result ∧ before = after := by
  show Except.ok (before.listing.lookup? id, before) = _ ↔ _
  simp only [Except.ok.injEq, Prod.mk.injEq]

/-- The type of a variable, which is absent where there is none. -/
def typeIn (state : LoweringState) (id : VarId) : Ty :=
  ((state.listing.fixed? id).map fun v => v.type).getD .absent

theorem typeOf_ok_iff
    {result : Ty} :
    typeOf id before = .ok (result, after) ↔ typeIn before id = result ∧ before = after := by
  unfold typeIn
  rw [Listing.type_fixed?]
  show Except.ok (((before.listing.lookup? id).map fun v => v.type).getD .absent, before) =
    _ ↔ _
  simp only [Except.ok.injEq, Prod.mk.injEq]

end Sequencing

variable
    {name : String}
    {ids : List VarId}

section Nodes

variable
    {before after : LoweringState}

theorem emit_ok_iff
    {node : Node}
    {result : Unit} :
    emit node before = .ok (result, after) ↔ before.appended node = after :=
  modify_ok_iff

/-- A label is appended only where it is new. -/
theorem label_ok_iff
    {result : Unit} :
    label name before = .ok (result, after) ↔
      name ∉ before.listing.labels ∧ before.labelled name = after := by
  unfold label
  simp only [bind_ok_iff, get_ok_iff]
  constructor
  · rintro ⟨state, between, ⟨rfl, rfl⟩, later⟩
    split at later
    next known =>
      obtain ⟨_, _, failed, -⟩ := bind_ok_iff.mp later
      exact (fail_ok_iff.mp failed).elim
    next fresh =>
      obtain ⟨_, between, declared, emitted⟩ := bind_ok_iff.mp later
      cases modify_ok_iff.mp declared
      exact ⟨fresh, emit_ok_iff.mp emitted⟩
  · rintro ⟨fresh, rfl⟩
    refine ⟨before, before, ⟨rfl, rfl⟩, ?_⟩
    rw [if_neg fresh]
    exact bind_ok_iff.mpr ⟨(), _, rfl, rfl⟩

theorem newTemporary_ok_iff
    {type : Ty}
    {value : Value}
    {isResult : Bool}
    {result : VarId} :
    newTemporary type value isResult line before = .ok (result, after) ↔
      result = before.listing.vars.size + 1 ∧
        after = before.withTemporary type value isResult line := by
  show Except.ok (before.listing.vars.size + 1, before.withTemporary type value isResult line) =
    _ ↔ _
  simp only [Except.ok.injEq, Prod.mk.injEq]
  exact ⟨fun both => ⟨both.1.symm, both.2.symm⟩, fun both => ⟨both.1.symm, both.2.symm⟩⟩

theorem destroy_ok_iff
    {result : Unit} :
    destroy id before = .ok (result, after) ↔ after = before.destroyed id := by
  unfold destroy LoweringState.destroyed
  simp only [bind_ok_iff, get_ok_iff]
  constructor
  · rintro ⟨state, between, ⟨rfl, rfl⟩, later⟩
    split at later
    next pending =>
      obtain ⟨_, between, erased, emitted⟩ := bind_ok_iff.mp later
      cases modify_ok_iff.mp erased
      rw [if_pos pending]
      exact (emit_ok_iff.mp emitted).symm
    next settled =>
      rw [if_neg settled]
      exact (pure_ok_iff.mp later).2.symm
  · rintro rfl
    refine ⟨before, before, ⟨rfl, rfl⟩, ?_⟩
    split
    · exact bind_ok_iff.mpr ⟨(), _, rfl, rfl⟩
    · rfl

theorem destroyAll_ok_iff
    {result : Unit} :
    destroyAll ids before = .ok (result, after) ↔
      after = ids.foldl (fun state id => state.appended (.destroy id)) before := by
  unfold destroyAll
  induction ids generalizing before with
  | nil =>
      show (pure () : Lower Unit) before = _ ↔ _
      rw [pure_ok_iff]
      simp [eq_comm]
  | cons first rest inductionHypothesis =>
      show (emit (.destroy first) >>= fun _ => rest.forM fun id => emit (.destroy id)) before =
        _ ↔ _
      rw [bind_ok_iff]
      simp only [emit_ok_iff, List.foldl_cons]
      constructor
      · rintro ⟨_, _, rfl, later⟩
        exact inductionHypothesis.mp later
      · intro later
        exact ⟨(), _, rfl, inductionHypothesis.mpr later⟩

end Nodes

variable
    {result : Unit}
    {array : Variable}
    {op : ArithOp}

section Expressions

variable
    {before after : LoweringState}
    {line : Nat}

/-- A name that resolves is bound in some scope around, to a named variable. -/
theorem resolve_ok
    {v : Variable}
    (resolved : resolve name line before = .ok (v, after)) :
    after = before ∧
      ∃ id,
        before.listing.scopes.lookup? before.scope name = some id ∧
          before.listing.lookup? id = some v ∧ v.storage.isNamed := by
  unfold resolve at resolved
  obtain ⟨state, _, got, later⟩ := bind_ok_iff.mp resolved
  obtain ⟨rfl, rfl⟩ := get_ok_iff.mp got
  obtain ⟨current, _, framed, found⟩ := bind_ok_iff.mp later
  obtain ⟨rfl, rfl⟩ := frame_ok_iff.mp framed
  cases bound : before.listing.scopes.resolve (before.frames.headD .outermost).scope name with
  | error fault =>
      simp only [bound] at found
      exact (throw_ok_iff.mp found).elim
  | ok id =>
      simp only [bound] at found
      have visible : before.listing.scopes.lookup? before.scope name = some id := by
        unfold ScopeTree.resolve at bound
        split at bound
        · cases bound
          assumption
        · cases bound
      cases lookup : before.listing.lookup? id with
      | none =>
          simp only [lookup] at found
          exact (fail_ok_iff.mp found).elim
      | some w =>
          cases storage : w.storage with
          | named =>
              simp only [lookup, storage] at found
              obtain ⟨rfl, rfl⟩ := pure_ok_iff.mp found
              exact ⟨rfl, id, visible, lookup, by rw [storage]; rfl⟩
          | _ =>
              simp only [lookup, storage] at found
              exact (fail_ok_iff.mp found).elim

/-- A constant becomes a variable that no node mentions yet. -/
theorem newLiteral_ok_iff
    {value : Literal}
    {id : VarId} :
    newLiteral value before = .ok (id, after) ↔
      id = before.listing.vars.size + 1 ∧ after = before.withLiteral value := by
  have number : ∀ type text,
      (before.listing.addLiteral type text).2 = before.listing.vars.size + 1 := by
    intro type text
    unfold Listing.addLiteral
    split <;> rfl
  cases value with
  | scalar type text =>
      unfold newLiteral LoweringState.withLiteral
      rw [onListing_ok_iff, number]
      simp only [eq_comm]
  | string contents =>
      unfold newLiteral LoweringState.withLiteral
      rw [onListing_ok_iff, number]
      simp only [eq_comm]

/-- The result of a pending call is copied, and any other variable stands for itself. -/
theorem materialize_ok
    {id copied : VarId}
    (materialized : materialize id line before = .ok (copied, after)) :
    (∃ v function call,
      before.listing.fixed? id = some v ∧ v.storage = .result function call ∧
        copied = before.listing.vars.size + 1 ∧
        after = before.withTemporary v.type (.reference id) false line) ∨
      (copied = id ∧ after = before ∧
        ∀ v function call,
          before.listing.fixed? id = some v → v.storage ≠ .result function call) := by
  unfold materialize at materialized
  obtain ⟨found, _, lookup, later⟩ := bind_ok_iff.mp materialized
  obtain ⟨rfl, rfl⟩ := find?_ok_iff.mp lookup
  cases lookup : before.listing.lookup? id with
  | none =>
      simp only [lookup] at later
      obtain ⟨rfl, rfl⟩ := pure_ok_iff.mp later
      right
      refine ⟨rfl, rfl, ?_⟩
      intro v function call found
      simp [Listing.fixed?, lookup] at found
  | some w =>
      have found : before.listing.fixed? id = some w.fixed := by
        simp [Listing.fixed?, lookup]
      rcases w with ⟨number, type, value, preserved, lastUse, storage⟩
      cases storage with
      | result function call =>
          simp only [lookup] at later
          obtain ⟨rfl, rfl⟩ := newTemporary_ok_iff.mp later
          exact .inl ⟨_, function, call, found, rfl, rfl, rfl⟩
      | _ =>
          simp only [lookup] at later
          obtain ⟨rfl, rfl⟩ := pure_ok_iff.mp later
          refine .inr ⟨rfl, rfl, ?_⟩
          intro v function call same isResult
          rw [found] at same
          cases same
          cases Variable.fixed_result_iff.mp isResult

/-- An access to an element is made once its index is a variable that can be read again. -/
theorem element_ok
    {index id : VarId}
    (accessed : element array index line before = .ok (id, after)) :
    (typeIn before index).isArithmetic ∧
      (∀ v, before.listing.fixed? index = some v → v.storage = .literal →
        indexOutside v.value.text array.type.length = false) ∧
      ∃ position between,
        materialize index line before = .ok (position, between) ∧
          id = between.listing.vars.size + 1 ∧ after = between.withElement array.id position := by
  unfold element at accessed
  obtain ⟨type, _, typed, later⟩ := bind_ok_iff.mp accessed
  obtain ⟨rfl, rfl⟩ := typeOf_ok_iff.mp typed
  have materialized : ∀ {state : LoweringState},
      (do
        let position ← materialize index line
        onListing fun listing => listing.addElement array.id position : Lower VarId) state =
          .ok (id, after) →
      ∃ position between,
        materialize index line state = .ok (position, between) ∧
          id = between.listing.vars.size + 1 ∧ after = between.withElement array.id position := by
    intro state run
    obtain ⟨position, between, copied, added⟩ := bind_ok_iff.mp run
    obtain ⟨rfl, rfl⟩ := onListing_ok_iff.mp added
    exact ⟨position, between, copied, rfl, rfl⟩
  by_cases arithmetic : (typeIn before index).isArithmetic
  · simp only [arithmetic, Bool.not_true, Bool.false_eq_true, ↓reduceIte] at later
    obtain ⟨found, _, lookup, checked⟩ := bind_ok_iff.mp later
    obtain ⟨rfl, rfl⟩ := find?_ok_iff.mp lookup
    cases known : before.listing.lookup? index with
    | none =>
        simp only [known] at checked
        refine ⟨arithmetic, ?_, materialized checked⟩
        intro v found
        simp [Listing.fixed?, known] at found
    | some w =>
        have found : before.listing.fixed? index = some w.fixed := by
          simp [Listing.fixed?, known]
        rcases w with ⟨number, type, value, preserved, lastUse, storage⟩
        cases storage with
        | literal =>
            simp only [known] at checked
            by_cases outside : indexOutside value.text array.type.length
            · simp only [outside, ↓reduceIte] at checked
              obtain ⟨_, _, failed, -⟩ := bind_ok_iff.mp checked
              exact (fail_ok_iff.mp failed).elim
            · simp only [outside, Bool.false_eq_true, ↓reduceIte] at checked
              refine ⟨arithmetic, ?_, materialized checked⟩
              intro v same isLiteral
              rw [found] at same
              cases same
              exact eq_false_of_ne_true outside
        | _ =>
            simp only [known] at checked
            refine ⟨arithmetic, ?_, materialized checked⟩
            intro v same isLiteral
            rw [found] at same
            cases same
            cases Variable.fixed_literal_iff.mp isLiteral
  · simp only [arithmetic, Bool.not_false, ↓reduceIte] at later
    obtain ⟨_, _, failed, -⟩ := bind_ok_iff.mp later
    exact (fail_ok_iff.mp failed).elim

theorem requireArray_ok
    (required : requireArray array name line before = .ok (result, after)) :
    array.type.isArray ∧ after = before := by
  unfold requireArray at required
  split at required
  next isArray => exact ⟨isArray, (pure_ok_iff.mp required).2.symm⟩
  · exact (fail_ok_iff.mp required).elim

theorem requireArithmetic_ok
    (required : requireArithmetic op id line before = .ok (result, after)) :
    (typeIn before id).isArithmetic ∧ after = before := by
  unfold requireArithmetic at required
  obtain ⟨type, _, typed, later⟩ := bind_ok_iff.mp required
  obtain ⟨rfl, rfl⟩ := typeOf_ok_iff.mp typed
  by_cases arithmetic : (typeIn before id).isArithmetic
  · simp only [arithmetic, Bool.not_true, Bool.false_eq_true, ↓reduceIte] at later
    exact ⟨arithmetic, (pure_ok_iff.mp later).2.symm⟩
  · simp only [arithmetic, Bool.not_false, ↓reduceIte] at later
    exact (fail_ok_iff.mp later).elim

/-- An operation gets a temporary of its own, and its operands are destroyed behind it. -/
theorem operation_ok
    {left right id : VarId}
    (operated : operation op left right line before = .ok (id, after)) :
    (typeIn before left).isArithmetic ∧ (typeIn before right).isArithmetic ∧
      ∃ leftOperand rightOperand middle between,
        materialize left line before = .ok (leftOperand, middle) ∧
          materialize right line middle = .ok (rightOperand, between) ∧
          id = between.listing.vars.size + 1 ∧
          after =
            (((between.withTemporary .int (.literal "0") true line).appended
              (.arith id leftOperand rightOperand op line)).destroyed leftOperand).destroyed
                rightOperand := by
  unfold operation at operated
  simp only [bind_ok_iff] at operated
  obtain ⟨_, _, leftChecked, _, _, rightChecked, leftOperand, middle, leftCopied,
    rightOperand, between, rightCopied, _, _, added, _, _, emitted,
    _, _, leftDestroyed, _, _, rightDestroyed, returned⟩ := operated
  obtain ⟨leftArithmetic, rfl⟩ := requireArithmetic_ok leftChecked
  obtain ⟨rightArithmetic, rfl⟩ := requireArithmetic_ok rightChecked
  obtain ⟨rfl, rfl⟩ := newTemporary_ok_iff.mp added
  cases emit_ok_iff.mp emitted
  cases destroy_ok_iff.mp leftDestroyed
  cases destroy_ok_iff.mp rightDestroyed
  obtain ⟨rfl, rfl⟩ := pure_ok_iff.mp returned
  exact ⟨leftArithmetic, rightArithmetic, leftOperand, rightOperand, middle, between,
    leftCopied, rightCopied, rfl, rfl⟩

/-- An argument is copied unless it is a constant or a temporary. -/
theorem argument_ok
    {function : String}
    {id copied : VarId}
    (passed : argument function id line before = .ok (copied, after)) :
    (∃ v,
      before.listing.fixed? id = some v ∧ v.storage.isCopied ∧
        (v.storage.isNamed → v.type.isArray = false) ∧
        copied = before.listing.vars.size + 1 ∧
        after = before.withTemporary v.type (.reference id) false line) ∨
      (copied = id ∧ after = before ∧
        ∀ v, before.listing.fixed? id = some v → v.storage.isCopied = false) := by
  unfold argument at passed
  obtain ⟨found, _, lookup, later⟩ := bind_ok_iff.mp passed
  obtain ⟨rfl, rfl⟩ := find?_ok_iff.mp lookup
  cases known : before.listing.lookup? id with
  | none =>
      simp only [known] at later
      obtain ⟨rfl, rfl⟩ := pure_ok_iff.mp later
      refine .inr ⟨rfl, rfl, ?_⟩
      intro v found
      simp [Listing.fixed?, known] at found
  | some w =>
      have found : before.listing.fixed? id = some w.fixed := by
        simp [Listing.fixed?, known]
      have copies :
          (do
            if w.type.isArray then
              fail (.arrayArgument function) line
            newTemporary w.type (.reference id) false line : Lower VarId) before =
              .ok (copied, after) →
          w.type.isArray = false ∧ copied = before.listing.vars.size + 1 ∧
            after = before.withTemporary w.type (.reference id) false line := by
        intro run
        by_cases isArray : w.type.isArray
        · simp only [isArray, ↓reduceIte] at run
          obtain ⟨_, _, failed, -⟩ := bind_ok_iff.mp run
          exact (fail_ok_iff.mp failed).elim
        · simp only [isArray, Bool.false_eq_true, ↓reduceIte] at run
          exact ⟨by simpa using isArray, newTemporary_ok_iff.mp run⟩
      cases storage : w.storage with
      | named name isGlobal isParam position scope =>
          simp only [known, storage] at later
          obtain ⟨noArray, rfl, rfl⟩ := copies later
          exact .inl ⟨_, found, by rw [Variable.isCopied_fixed, storage]; rfl, fun _ => noArray,
            rfl, rfl⟩
      | element array index =>
          simp only [known, storage] at later
          obtain ⟨noArray, rfl, rfl⟩ := copies later
          exact .inl ⟨_, found, by rw [Variable.isCopied_fixed, storage]; rfl, fun _ => noArray,
            rfl, rfl⟩
      | result owner call =>
          simp only [known, storage] at later
          rcases materialize_ok later with
            ⟨v, _, _, same, _, rfl, rfl⟩ | ⟨_, _, noResult⟩
          · rw [found] at same
            cases same
            refine .inl ⟨_, found, by rw [Variable.isCopied_fixed, storage]; rfl, ?_, rfl, rfl⟩
            rw [Variable.isNamed_fixed, storage]
            intro isNamed
            cases isNamed
          · exact (noResult _ owner call found (Variable.fixed_result_iff.mpr storage)).elim
      | _ =>
          simp only [known, storage] at later
          obtain ⟨rfl, rfl⟩ := pure_ok_iff.mp later
          refine .inr ⟨rfl, rfl, ?_⟩
          intro v same
          rw [found] at same
          cases same
          rw [Variable.isCopied_fixed, storage]
          rfl

end Expressions

section Calls

variable
    {before after : LoweringState}
    {line : Nat}

theorem requireAssignable_ok
    {wanted : Ty}
    (required : requireAssignable wanted id line before = .ok (result, after)) :
    assignable wanted (typeIn before id) line = .ok () ∧ after = before := by
  unfold requireAssignable at required
  obtain ⟨type, _, typed, later⟩ := bind_ok_iff.mp required
  obtain ⟨rfl, rfl⟩ := typeOf_ok_iff.mp typed
  cases checked : assignable wanted (typeIn before id) line with
  | ok =>
      simp only [checked] at later
      exact ⟨rfl, (pure_ok_iff.mp later).2.symm⟩
  | error failure =>
      simp only [checked] at later
      exact (throw_ok_iff.mp later).elim

/-- Checking arguments against parameters changes nothing. -/
theorem requireParameters_ok
    {params given : List VarId}
    (required : requireParameters params given line before = .ok (result, after)) :
    after = before := by
  induction params generalizing given with
  | nil =>
      unfold requireParameters at required
      exact (pure_ok_iff.mp required).2.symm
  | cons param params inductionHypothesis =>
      cases given with
      | nil =>
          unfold requireParameters at required
          exact (pure_ok_iff.mp required).2.symm
      | cons first rest =>
          unfold requireParameters at required
          simp only [bind_ok_iff] at required
          obtain ⟨_, _, typed, _, _, checked, later⟩ := required
          obtain ⟨-, rfl⟩ := typeOf_ok_iff.mp typed
          obtain ⟨-, rfl⟩ := requireAssignable_ok checked
          exact inductionHypothesis later

variable
    {given : List VarId}

/--
A call to a function without a result is made at once; the result of any other is added
as a variable, and the call itself is made only where it stands as a statement.
-/
theorem invoke_ok
    {function : Signature}
    {isStatement : Bool}
    {result : Option VarId}
    (invoked : invoke function given line isStatement before = .ok (result, after)) :
    (function.isVoid ∧ result = none ∧
      after =
        ((before.counted function).marked given).appended
          (.call (before.nextCall function given line))) ∨
      (function.isVoid = false ∧ result = some (before.listing.vars.size + 1) ∧
        after =
          if isStatement then
            ((before.counted function).withResult function
              (before.nextCall function given line)).appended
                (.call (before.nextCall function given line))
          else
            (before.counted function).withResult function
              (before.nextCall function given line)) := by
  unfold invoke at invoked
  obtain ⟨_, _, checked, later⟩ := bind_ok_iff.mp invoked
  cases requireParameters_ok checked
  obtain ⟨call, _, numbered, made⟩ := bind_ok_iff.mp later
  obtain ⟨rfl, rfl⟩ := onListing_ok_iff.mp numbered
  cases isVoid : function.isVoid with
  | true =>
      simp only [isVoid, ↓reduceIte, bind_ok_iff] at made
      obtain ⟨_, _, kept, _, _, emitted, returned⟩ := made
      cases modify_ok_iff.mp kept
      cases emit_ok_iff.mp emitted
      obtain ⟨rfl, rfl⟩ := pure_ok_iff.mp returned
      exact .inl ⟨rfl, rfl, rfl⟩
  | false =>
      simp only [isVoid, Bool.false_eq_true, ↓reduceIte, bind_ok_iff] at made
      obtain ⟨id, _, added, emitted⟩ := made
      obtain ⟨rfl, rfl⟩ := onListing_ok_iff.mp added
      refine .inr ⟨rfl, ?_⟩
      cases isStatement with
      | true =>
          simp only [↓reduceIte, bind_ok_iff] at emitted
          obtain ⟨_, _, called, returned⟩ := emitted
          cases emit_ok_iff.mp called
          obtain ⟨rfl, rfl⟩ := pure_ok_iff.mp returned
          exact ⟨rfl, rfl⟩
      | false =>
          simp only [Bool.false_eq_true, ↓reduceIte] at emitted
          obtain ⟨rfl, rfl⟩ := pure_ok_iff.mp emitted
          exact ⟨rfl, rfl⟩

variable
    {builtin : Builtin}

/-- A call to a builtin is made at once. -/
theorem invokeBuiltin_ok
    (invoked : invokeBuiltin builtin given line before = .ok (result, after)) :
    (∀ id ∈ given, builtin.accepts (typeIn before id)) ∧
      after =
        { before with
          listing := { before.listing with
            callCount := before.listing.callCount + 1 } }.appended
              (.call (before.nextBuiltinCall builtin given line)) := by
  unfold invokeBuiltin at invoked
  obtain ⟨_, _, checked, later⟩ := bind_ok_iff.mp invoked
  have unchanged : ∀ {ids : List VarId} {state : LoweringState} {done : Unit},
      (ids.forM fun id => do
        let type ← typeOf id
        if !builtin.accepts type then
          fail (.builtinArgument builtin.name type) line : Lower Unit) before =
            .ok (done, state) →
      (∀ id ∈ ids, builtin.accepts (typeIn before id)) ∧ state = before := by
    intro ids
    induction ids with
    | nil =>
        intro state done run
        exact ⟨by simp, (pure_ok_iff.mp run).2.symm⟩
    | cons first rest inductionHypothesis =>
        intro state done run
        obtain ⟨_, _, one, others⟩ := bind_ok_iff.mp run
        obtain ⟨type, _, typed, tested⟩ := bind_ok_iff.mp one
        obtain ⟨rfl, rfl⟩ := typeOf_ok_iff.mp typed
        cases accepted : builtin.accepts (typeIn before first) with
        | true =>
            simp only [accepted, Bool.not_true, Bool.false_eq_true, ↓reduceIte] at tested
            obtain ⟨-, rfl⟩ := pure_ok_iff.mp tested
            obtain ⟨rest, rfl⟩ := inductionHypothesis others
            exact ⟨by simpa [accepted] using rest, rfl⟩
        | false =>
            simp only [accepted, Bool.not_false, ↓reduceIte] at tested
            exact (fail_ok_iff.mp tested).elim
  obtain ⟨accepted, rfl⟩ := unchanged checked
  obtain ⟨call, _, numbered, emitted⟩ := bind_ok_iff.mp later
  obtain ⟨rfl, rfl⟩ := onListing_ok_iff.mp numbered
  exact ⟨accepted, (emit_ok_iff.mp emitted).symm⟩

theorem findBuiltin_ok
    {given : Nat}
    (found : findBuiltin name given line before = .ok (builtin, after)) :
    Builtin.ofName? name = some builtin ∧ given = builtin.arity ∧ after = before := by
  unfold findBuiltin at found
  cases known : Builtin.ofName? name with
  | none =>
      simp only [known] at found
      exact (fail_ok_iff.mp found).elim
  | some other =>
      simp only [known] at found
      by_cases arity : given = other.arity
      · simp only [arity, ne_eq, not_true_eq_false, ↓reduceIte] at found
        obtain ⟨rfl, rfl⟩ := pure_ok_iff.mp found
        exact ⟨rfl, arity, rfl⟩
      · simp only [arity, ne_eq, not_false_eq_true, ↓reduceIte] at found
        obtain ⟨_, _, failed, -⟩ := bind_ok_iff.mp found
        exact (fail_ok_iff.mp failed).elim

theorem findFunction_ok
    {given : Nat}
    {signature : Signature}
    (found : findFunction name given line before = .ok (signature, after)) :
    before.listing.signature? name = some signature ∧
      given = signature.params.length ∧ after = before := by
  unfold findFunction at found
  obtain ⟨state, _, got, later⟩ := bind_ok_iff.mp found
  obtain ⟨rfl, rfl⟩ := get_ok_iff.mp got
  cases known : before.listing.function? name with
  | none =>
      simp only [known] at later
      exact (fail_ok_iff.mp later).elim
  | some function =>
      simp only [known] at later
      by_cases arity : given = function.signature.params.length
      · simp only [arity, ne_eq, not_true_eq_false, ↓reduceIte] at later
        obtain ⟨rfl, rfl⟩ := pure_ok_iff.mp later
        exact ⟨by simp [Listing.signature?, known], arity, rfl⟩
      · simp only [arity, ne_eq, not_false_eq_true, ↓reduceIte] at later
        obtain ⟨_, _, failed, -⟩ := bind_ok_iff.mp later
        exact (fail_ok_iff.mp failed).elim

theorem require_ok_iff
    {given : Option VarId}
    {id : VarId} :
    require given line before = .ok (id, after) ↔ given = some id ∧ before = after := by
  cases given with
  | none => simp [require, fail_ok_iff]
  | some known => simp [require, pure_ok_iff]

end Calls

section Trees

variable
    {before after : LoweringState}
    {line : Nat}
    {result : Option VarId}

theorem expression_array_ok
    {elements : List Expr} :
    expression (.array line elements) before = .ok (result, after) ↔ False := by
  rw [expression, fail_ok_iff]

theorem expression_name_ok
    (lowered : expression (.name line name) before = .ok (result, after)) :
    ∃ v, resolve name line before = .ok (v, after) ∧ result = some v.id := by
  rw [expression] at lowered
  obtain ⟨v, _, resolved, returned⟩ := bind_ok_iff.mp lowered
  obtain ⟨rfl, rfl⟩ := pure_ok_iff.mp returned
  exact ⟨v, resolved, rfl⟩

theorem expression_literal_ok
    {value : Literal}
    (lowered : expression (.literal line value) before = .ok (result, after)) :
    result = some (before.listing.vars.size + 1) ∧ after = before.withLiteral value := by
  rw [expression] at lowered
  obtain ⟨id, _, added, returned⟩ := bind_ok_iff.mp lowered
  obtain ⟨rfl, rfl⟩ := newLiteral_ok_iff.mp added
  obtain ⟨rfl, rfl⟩ := pure_ok_iff.mp returned
  exact ⟨rfl, rfl⟩

/-- Constant arithmetic becomes a constant, any other an operation on two variables. -/
theorem expression_binary_ok
    {left right : Expr}
    (lowered : expression (.binary line op left right) before = .ok (result, after)) :
    ((Expr.binary line op left right).isConstant ∧
      ∃ value,
        (Expr.binary line op left right).evaluate = .ok value ∧
          result = some (before.listing.vars.size + 1) ∧
          after = before.withLiteral (.scalar .int (toString value))) ∨
      ((Expr.binary line op left right).isConstant = false ∧
        ∃ leftValue middle rightValue between id,
          expression left before = .ok (some leftValue, middle) ∧
            expression right middle = .ok (some rightValue, between) ∧
            operation op leftValue rightValue line between = .ok (id, after) ∧
            result = some id) := by
  rw [expression] at lowered
  by_cases constant : (Expr.binary line op left right).isConstant
  · simp only [constant, ↓reduceIte] at lowered
    cases evaluated : (Expr.binary line op left right).evaluate with
    | error failure =>
        simp only [evaluated] at lowered
        exact (throw_ok_iff.mp lowered).elim
    | ok value =>
        simp only [evaluated, bind_ok_iff] at lowered
        obtain ⟨id, _, added, returned⟩ := lowered
        obtain ⟨rfl, rfl⟩ := newLiteral_ok_iff.mp added
        obtain ⟨rfl, rfl⟩ := pure_ok_iff.mp returned
        exact .inl ⟨constant, value, rfl, rfl, rfl⟩
  · simp only [constant, Bool.false_eq_true, ↓reduceIte, bind_ok_iff, require_ok_iff] at lowered
    obtain ⟨_, _, leftLowered, leftValue, middle, ⟨rfl, rfl⟩, _, _, rightLowered,
      rightValue, between, ⟨rfl, rfl⟩, id, _, operated, returned⟩ := lowered
    obtain ⟨rfl, rfl⟩ := pure_ok_iff.mp returned
    exact .inr ⟨eq_false_of_ne_true constant, leftValue, _, rightValue, _, id, leftLowered,
      rightLowered, operated, rfl⟩

theorem expression_element_ok
    {index : Expr}
    (lowered : expression (.element line name index) before = .ok (result, after)) :
    ∃ array position between id,
      resolve name line before = .ok (array, before) ∧ array.type.isArray ∧
        expression index before = .ok (some position, between) ∧
        element array position line between = .ok (id, after) ∧ result = some id := by
  rw [expression] at lowered
  simp only [bind_ok_iff, require_ok_iff] at lowered
  obtain ⟨array, _, resolved, _, _, required, _, _, indexLowered, position, between,
    ⟨rfl, rfl⟩, id, _, accessed, returned⟩ := lowered
  obtain ⟨rfl, -⟩ := resolve_ok resolved
  obtain ⟨isArray, rfl⟩ := requireArray_ok required
  obtain ⟨rfl, rfl⟩ := pure_ok_iff.mp returned
  exact ⟨array, position, _, id, resolved, isArray, indexLowered, accessed, rfl⟩

variable
    {given : List Expr}

theorem expression_builtin_ok
    (lowered : expression (.call line name true given) before = .ok (result, after)) :
    result = none ∧
      ∃ builtin lowered between,
        Builtin.ofName? name = some builtin ∧ given.length = builtin.arity ∧
          arguments name line given before = .ok (lowered, between) ∧
          invokeBuiltin builtin lowered line between = .ok ((), after) := by
  rw [expression] at lowered
  simp only [↓reduceIte, bind_ok_iff] at lowered
  obtain ⟨builtin, _, found, ids, between, passed, _, _, invoked, returned⟩ := lowered
  obtain ⟨known, arity, rfl⟩ := findBuiltin_ok found
  obtain ⟨rfl, rfl⟩ := pure_ok_iff.mp returned
  exact ⟨rfl, builtin, ids, between, known, arity, passed, invoked⟩

theorem expression_call_ok
    (lowered : expression (.call line name false given) before = .ok (result, after)) :
    ∃ function ids between,
      before.listing.signature? name = some function ∧
        given.length = function.params.length ∧
        arguments name line given before = .ok (ids, between) ∧
        invoke function ids line false between = .ok (result, after) := by
  rw [expression] at lowered
  simp only [Bool.false_eq_true, ↓reduceIte, bind_ok_iff] at lowered
  obtain ⟨function, _, found, ids, between, passed, invoked⟩ := lowered
  obtain ⟨known, arity, rfl⟩ := findFunction_ok found
  exact ⟨function, ids, between, known, arity, passed, invoked⟩

theorem arguments_nil_ok
    (lowered : arguments name line [] before = .ok (ids, after)) :
    ids = [] ∧ after = before := by
  rw [arguments] at lowered
  obtain ⟨rfl, rfl⟩ := pure_ok_iff.mp lowered
  exact ⟨rfl, rfl⟩

theorem arguments_cons_ok
    {first : Expr}
    {rest : List Expr}
    (lowered : arguments name line (first :: rest) before = .ok (ids, after)) :
    ∃ value middle copied between others,
      expression first before = .ok (some value, middle) ∧
        argument name value line middle = .ok (copied, between) ∧
        arguments name line rest between = .ok (others, after) ∧ ids = copied :: others := by
  rw [arguments] at lowered
  simp only [bind_ok_iff, require_ok_iff] at lowered
  obtain ⟨_, _, firstLowered, value, middle, ⟨rfl, rfl⟩, copied, between, passed, others, _,
    restLowered, returned⟩ := lowered
  obtain ⟨rfl, rfl⟩ := pure_ok_iff.mp returned
  exact ⟨value, _, copied, between, others, firstLowered, passed, restLowered, rfl⟩

theorem value_ok_iff
    {expr : Expr}
    {id : VarId} :
    value expr before = .ok (id, after) ↔ expression expr before = .ok (some id, after) := by
  unfold value
  simp only [bind_ok_iff, require_ok_iff]
  constructor
  · rintro ⟨_, _, lowered, rfl, rfl⟩
    exact lowered
  · intro lowered
    exact ⟨some id, after, lowered, rfl, rfl⟩

theorem elementOf_ok
    {index : Expr}
    (lowered : elementOf array name index line before = .ok (id, after)) :
    ∃ position between,
      array.type.isArray ∧ expression index before = .ok (some position, between) ∧
        element array position line between = .ok (id, after) := by
  unfold elementOf at lowered
  simp only [bind_ok_iff, value_ok_iff] at lowered
  obtain ⟨_, _, required, position, between, indexLowered, accessed⟩ := lowered
  obtain ⟨isArray, rfl⟩ := requireArray_ok required
  exact ⟨position, between, isArray, indexLowered, accessed⟩

theorem callStatement_builtin_ok
    {done : Unit}
    (lowered : callStatement line name true given before = .ok (done, after)) :
    ∃ builtin ids between,
      Builtin.ofName? name = some builtin ∧ given.length = builtin.arity ∧
        arguments name line given before = .ok (ids, between) ∧
        invokeBuiltin builtin ids line between = .ok ((), after) := by
  unfold callStatement at lowered
  simp only [↓reduceIte, bind_ok_iff] at lowered
  obtain ⟨builtin, _, found, ids, between, passed, invoked⟩ := lowered
  obtain ⟨known, arity, rfl⟩ := findBuiltin_ok found
  exact ⟨builtin, ids, between, known, arity, passed, invoked⟩

theorem callStatement_function_ok
    {done : Unit}
    (lowered : callStatement line name false given before = .ok (done, after)) :
    ∃ function ids between result,
      before.listing.signature? name = some function ∧
        given.length = function.params.length ∧
        arguments name line given before = .ok (ids, between) ∧
        invoke function ids line true between = .ok (result, after) := by
  unfold callStatement at lowered
  simp only [Bool.false_eq_true, ↓reduceIte, bind_ok_iff] at lowered
  obtain ⟨function, _, found, ids, between, passed, result, _, invoked, returned⟩ := lowered
  obtain ⟨known, arity, rfl⟩ := findFunction_ok found
  obtain ⟨-, rfl⟩ := pure_ok_iff.mp returned
  exact ⟨function, ids, between, result, known, arity, passed, invoked⟩

end Trees

/-!
## Expressions and their parts

What is known of lowering the parts of an expression, and is handed on by the step that takes their
values, is known of lowering the expression.
-/

/--
What is known of lowering an expression and of lowering the arguments of a call is handed on by
every form of expression.
-/
structure Evaluated
    (gives : Expr → LoweringState → LoweringState → Option VarId → Prop)
    (passes : String → Nat → List Expr → LoweringState → LoweringState → List VarId → Prop) :
    Prop where
  name : ∀ {line name v state},
    expression (.name line name) state = .ok (some v.id, state) →
    resolve name line state = .ok (v, state) → gives (.name line name) state state (some v.id)
  literal : ∀ line value state,
    gives (.literal line value) state (state.withLiteral value) (some (state.listing.vars.size + 1))
  folded : ∀ {line op left right value} state,
    (Expr.binary line op left right).isConstant →
    (Expr.binary line op left right).evaluate = .ok value →
      gives (.binary line op left right) state (state.withLiteral (.scalar .int (toString value)))
        (some (state.listing.vars.size + 1))
  binary : ∀ {line op left right leftValue rightValue id before middle between after},
    (Expr.binary line op left right).isConstant = false →
    expression left before = .ok (some leftValue, middle) →
    expression right middle = .ok (some rightValue, between) →
    operation op leftValue rightValue line between = .ok (id, after) →
    gives left before middle (some leftValue) → gives right middle between (some rightValue) →
      gives (.binary line op left right) before after (some id)
  element : ∀ {line name index array position id before between after},
    expression (.element line name index) before = .ok (some id, after) →
    resolve name line before = .ok (array, before) → array.type.isArray →
    expression index before = .ok (some position, between) →
    element array position line between = .ok (id, after) →
    gives index before between (some position) →
      gives (.element line name index) before after (some id)
  builtin : ∀ {line name given builtin ids before between after},
    Builtin.ofName? name = some builtin → given.length = builtin.arity →
    arguments name line given before = .ok (ids, between) →
    invokeBuiltin builtin ids line between = .ok ((), after) →
    passes name line given before between ids →
      gives (.call line name true given) before after none
  invoke : ∀ {line name given function ids before between after result isStatement},
    before.listing.signature? name = some function → given.length = function.params.length →
    arguments name line given before = .ok (ids, between) →
    invoke function ids line isStatement between = .ok (result, after) →
    passes name line given before between ids →
      gives (.call line name false given) before after (if isStatement then none else result)
  nil : ∀ {name line} state, passes name line [] state state []
  cons : ∀ {name line first rest value copied others before middle between after},
    expression first before = .ok (some value, middle) →
    argument name value line middle = .ok (copied, between) →
    arguments name line rest between = .ok (others, after) →
    gives first before middle (some value) → passes name line rest between after others →
      passes name line (first :: rest) before after (copied :: others)

namespace Evaluated

variable
    {gives : Expr → LoweringState → LoweringState → Option VarId → Prop}
    {passes : String → Nat → List Expr → LoweringState → LoweringState → List VarId → Prop}
    {given : List Expr}
    {before after : LoweringState}

/-- What is known of lowering each argument is known of lowering them all. -/
theorem each
    (evaluated : Evaluated gives passes)
    (parts : ∀ part ∈ given, ∀ {before after result},
      expression part before = .ok (result, after) → gives part before after result)
    (lowered : arguments name line given before = .ok (ids, after)) :
    passes name line given before after ids := by
  induction given generalizing before ids with
  | nil =>
      obtain ⟨rfl, rfl⟩ := arguments_nil_ok lowered
      exact evaluated.nil _
  | cons first rest inductionHypothesis =>
      obtain ⟨_, _, _, _, _, firstLowered, passed, restLowered, rfl⟩ := arguments_cons_ok lowered
      exact evaluated.cons firstLowered passed restLowered (parts first (by simp) firstLowered)
        (inductionHypothesis (fun part member => parts part (by simp [member])) restLowered)

theorem expression
    (evaluated : Evaluated gives passes)
    {expr : Expr}
    {result : Option VarId}
    (lowered : expression expr before = .ok (result, after)) :
    gives expr before after result := by
  induction expr using Expr.inductionOn generalizing before after result with
  | missing => exact (expression_missing_ok.mp lowered).elim
  | array => exact (expression_array_ok.mp lowered).elim
  | name =>
      obtain ⟨_, resolved, rfl⟩ := expression_name_ok lowered
      obtain ⟨rfl, _⟩ := resolve_ok resolved
      exact evaluated.name lowered resolved
  | literal =>
      obtain ⟨rfl, rfl⟩ := expression_literal_ok lowered
      exact evaluated.literal _ _ _
  | binary _ _ _ _ leftHypothesis rightHypothesis =>
      rcases expression_binary_ok lowered with ⟨isConstant, _, value, rfl, rfl⟩ |
        ⟨varies, _, _, _, _, _, leftLowered, rightLowered, operated, rfl⟩
      · exact evaluated.folded _ isConstant value
      · exact evaluated.binary varies leftLowered rightLowered operated (leftHypothesis leftLowered)
          (rightHypothesis rightLowered)
  | element _ _ _ inductionHypothesis =>
      obtain ⟨_, _, _, _, resolved, isArray, indexLowered, accessed, rfl⟩ :=
        expression_element_ok lowered
      exact evaluated.element lowered resolved isArray indexLowered accessed
        (inductionHypothesis indexLowered)
  | call _ _ builtin _ inductionHypothesis =>
      cases builtin with
      | true =>
          obtain ⟨rfl, _, _, _, known, arity, passed, invoked⟩ := expression_builtin_ok lowered
          exact evaluated.builtin known arity passed invoked
            (evaluated.each inductionHypothesis passed)
      | false =>
          obtain ⟨_, _, _, known, arity, passed, invoked⟩ := expression_call_ok lowered
          have called := evaluated.invoke known arity passed invoked
            (evaluated.each inductionHypothesis passed)
          exact called

theorem arguments
    (evaluated : Evaluated gives passes)
    (lowered : arguments name line given before = .ok (ids, after)) :
    passes name line given before after ids :=
  evaluated.each (fun _ _ => evaluated.expression) lowered

/-- A call that stands as a statement leaves no value. -/
theorem callStatement
    (evaluated : Evaluated gives passes)
    {builtin : Bool}
    (lowered : callStatement line name builtin given before = .ok (result, after)) :
    gives (.call line name builtin given) before after none := by
  cases builtin with
  | true =>
      obtain ⟨_, _, _, known, arity, passed, invoked⟩ := callStatement_builtin_ok lowered
      exact evaluated.builtin known arity passed invoked (evaluated.arguments passed)
  | false =>
      obtain ⟨_, _, _, _, known, arity, passed, invoked⟩ := callStatement_function_ok lowered
      exact evaluated.invoke known arity passed invoked (evaluated.arguments passed)

end Evaluated

end Lower

end IlsCompiler
