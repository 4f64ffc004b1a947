import IlsCompiler.Proofs.Lowering.StatementGrowth

namespace IlsCompiler

/-!
# Lowering a whole program

A program that lowering accepts is lowered in three passes over its statements: the
global variables, the signatures of the functions, and the bodies one after the other.
-/

/-- A variable is a parameter, whose value comes from its callers. -/
def Listing.IsParameter (listing : Listing) (id : VarId) : Prop :=
  ∃ v name position,
    listing.fixed? id = some v ∧ v.storage = .named name false true position 0 ∧
      v.value = .literal ""

/-- The parameters of a function are variables that its body can place in its scope. -/
def Listing.Parameters (listing : Listing) (function : Signature) : Prop :=
  ∀ id ∈ function.params, listing.IsParameter id

/-- The parameters of a function carry their positions. -/
def Listing.Ordered (listing : Listing) (params : List VarId) (first : Nat) : Prop :=
  ∀ position id, params[position]? = some id →
    ∃ v name,
      listing.fixed? id = some v ∧ v.storage = .named name false true (first + position) 0

variable
    {earlier later : Listing}

theorem Listing.Extends.ordered
    {params : List VarId}
    {first : Nat}
    (grown : earlier.Extends later)
    (ordered : earlier.Ordered params first) :
    later.Ordered params first := by
  intro position id isParam
  obtain ⟨v, name, found, storage⟩ := ordered position id isParam
  exact ⟨v, name, grown.fixed?_of found, storage⟩

variable
    {id : VarId}

theorem Listing.Extends.isParameter
    (grown : earlier.Extends later)
    (known : earlier.IsParameter id) :
    later.IsParameter id := by
  obtain ⟨v, name, position, found, storage⟩ := known
  exact ⟨v, name, position, grown.fixed?_of found, storage⟩

variable
    {function : Signature}

theorem Listing.Extends.parameters
    (grown : earlier.Extends later)
    (known : earlier.Parameters function) :
    later.Parameters function :=
  fun id member => grown.isParameter (known id member)

namespace LoweringState

/-- The state behind the node at which a function is entered. -/
def enteredBy (state : LoweringState) (function : Signature) : LoweringState :=
  { state with function := some function }.appended (.entry function)

/-- The state in which the scope of a function is open and its prologue stands. -/
def prepared (state : LoweringState) (function : Signature) (locals : Nat) : LoweringState :=
  let opened := (state.enteredBy function).opened .function ""
  { opened with
    listing := opened.listing.modifyFunction function.name fun lowered =>
      { lowered with scope := some (state.enteredBy function).listing.scopes.size } }.appended
        (.prologue function locals)

/-- The state in which the body of a function is begun: its first nodes stand. -/
def begun (state : LoweringState) (function : Signature) (locals : Nat) : LoweringState :=
  ((state.prepared function locals).labelled
    ((state.enteredBy function).newFrame .function "").startLabel).appended
      (.openScope (state.enteredBy function).listing.scopes.size .function)

/-- The state in which the innermost scope is closed but still open as a frame. -/
def closed (state : LoweringState) : LoweringState :=
  state.emptied.labelled state.innermost.endLabel

/-- The state behind the last node of a function. -/
def finished (state : LoweringState) (function : Signature) (scope : Nat) : LoweringState :=
  (state.closed.appended (.epilogue function)).appended (.closeScope scope .function true)

/-- The state outside every function. -/
def outside (state : LoweringState) : LoweringState :=
  { state.popped with function := none }

/-- The state in which a function has been declared. -/
def withFunction (state : LoweringState) (signature : Signature) : LoweringState :=
  { state with
    listing := { state.listing with
      functions := state.listing.functions ++
        [{ signature := signature, calls := 0, scope := none, firstNode := 0,
           nodeCount := 0 }] } }

/-- The state in which the variable of a parameter has been added. -/
def withParameter (state : LoweringState) (param : Param) (position : Nat) : LoweringState :=
  { state with
    listing := (state.listing.addNamed param.name param.type (.literal "") false true
      position 0).1 }

/-- The state in which a parameter is bound in the scope of its function. -/
def bound (state : LoweringState) (scope : Nat) (id : VarId) (name : String)
    (isGlobal isParam : Bool) (position : Nat) : LoweringState :=
  { state with
    listing :=
      { state.listing.modifyVariable id fun v =>
          { v with storage := .named name isGlobal isParam position scope } with
        scopes := state.listing.scopes.bind scope name id } }

end LoweringState

namespace Lower

open LoweringState Stateful

variable
    {before after : LoweringState}
    {done : Unit}
    {body : List Stmt}

theorem functionBody_ok
    (lowered : functionBody function body before = .ok (done, after)) :
    ∃ bound between,
      bindParameters before.listing.scopes.size function.line function.params
          (before.begun function (declarationsIn body)) = .ok ((), bound) ∧
        statements body bound = .ok ((), between) ∧
        between.innermost.endLabel ∉ between.emptied.listing.labels ∧
        after = (between.finished function before.listing.scopes.size).outside := by
  have scopes : ({ before with function := some function }.appended
      (.entry function)).listing.scopes = before.listing.scopes := by
    simp [appended]
  unfold functionBody at lowered
  simp only [bind_ok_iff, modify_ok_iff, emit_ok_iff, openScope_ok_iff, label_ok_iff,
    closeScope_ok_iff, popFrame_ok_iff] at lowered
  obtain ⟨_, _, rfl, _, _, rfl, _, _, ⟨rfl, rfl⟩, _, _, rfl, _, _, rfl, _, _, ⟨_, rfl⟩, _, _,
    rfl, _, bound, parametersBound, _, between, bodyLowered, _, _, ⟨endFresh, rfl⟩, _, _, rfl,
    _, _, rfl, _, _, rfl, rfl⟩ := lowered
  have number : (({ before with function := some function }.appended
      (.entry function)).newFrame .function "").scope = before.listing.scopes.size := by
    show ({ before with function := some function }.appended
      (.entry function)).listing.scopes.size = _
    rw [scopes]
  rw [number] at parametersBound
  refine ⟨bound, between, ?_, bodyLowered, endFresh, ?_⟩
  · unfold begun prepared enteredBy
    simp only [scopes]
    exact parametersBound
  · unfold finished outside closed
    simp only [number]

/-- What binding a parameter comes to: its name is declared, or it is passed over. -/
theorem bindParameters_cons
    (scope line : Nat)
    (id : VarId)
    (rest : List VarId)
    (before : LoweringState) :
    bindParameters scope line (id :: rest) before =
      match before.listing.lookup? id with
      | some { storage := .named name isGlobal isParam position _, .. } =>
          let placed := before.listing.modifyVariable id fun v =>
            { v with storage := .named name isGlobal isParam position scope }
          match placed.scopes.declare scope name id with
          | .error fault => .error (fault.failure line)
          | .ok (scopes, _, _) =>
              bindParameters scope line rest
                { before with listing := { placed with scopes := scopes } }
      | _ => bindParameters scope line rest before := by
  rw [bindParameters]
  simp only [bind, StateT.bind, get, getThe, MonadStateOf.get, StateT.get, pure, Except.pure,
    Except.bind]
  rcases before.listing.lookup? id with _ | ⟨number, type, value, preserved, lastUse, storage⟩
  · rfl
  cases storage with
  | named name isGlobal isParam position placed =>
      dsimp only
      rcases (before.listing.modifyVariable id fun v =>
        { v with storage := .named name isGlobal isParam position scope }).scopes.declare scope
          name id with fault | ⟨scopes, reference, isNew⟩
      · rfl
      · rfl
  | _ => rfl

variable
    {position : Nat}
    {name : String}
    {scope line : Nat}
    {v : Variable}
    {rest : List VarId}

/-- A parameter is bound under its name, or refused because the name is visible already. -/
theorem bindParameters_parameter
    (isLocal : before.listing.scopes.isModule scope = false)
    (found : before.listing.fixed? id = some v)
    (storage : v.storage = .named name false true position 0) :
    bindParameters scope line (id :: rest) before =
      match before.listing.scopes.lookup? scope name with
      | some _ => .error ((ScopeFault.duplicate name).failure line)
      | none => bindParameters scope line rest (before.bound scope id name false true position) := by
  obtain ⟨w, known, same⟩ := Listing.lookup?_of_fixed? found
  obtain ⟨placed, stored⟩ : ∃ placed, w.storage = .named name false true position placed := by
    subst same
    exact Variable.storage_of_fixed_param storage
  rcases w with ⟨number, type, value, preserved, lastUse, wStorage⟩
  simp only at stored
  subst stored
  have sameScopes : (before.listing.modifyVariable id fun v =>
      { v with storage := .named name false true position scope }).scopes =
        before.listing.scopes :=
    congrArg Listing.Frozen.scopes (Listing.frozen_modifyVariable _ _ _)
  rw [bindParameters_cons, known]
  simp only [sameScopes, ScopeTree.declare, isLocal, Bool.false_eq_true, ↓reduceIte]
  cases before.listing.scopes.lookup? scope name with
  | some other => rfl
  | none => rfl

/-- A parameter that is bound is a variable of its own whose name was free. -/
theorem bindParameters_cons_ok
    (isLocal : before.listing.scopes.isModule scope = false)
    (found : before.listing.fixed? id = some v)
    (storage : v.storage = .named name false true position 0)
    (lowered : bindParameters scope line (id :: rest) before = .ok (done, after)) :
    before.listing.scopes.lookup? scope name = none ∧
      bindParameters scope line rest (before.bound scope id name false true position) =
        .ok ((), after) := by
  rw [bindParameters_parameter isLocal found storage] at lowered
  split at lowered
  · cases lowered
  next unseen => exact ⟨unseen, lowered⟩

/-- Binding a parameter changes its mark and the names of one scope. -/
theorem proceeds_bound
    (scope : Nat)
    (found : before.listing.fixed? id = some v)
    (storage : v.storage = .named name false true position 0) :
    before.Proceeds (before.bound scope id name false true position) := by
  let change (w : Variable) : Variable :=
    { w with storage := .named name false true position scope }
  have keeps : ∀ w, before.listing.lookup? id = some w → (change w).fixed = w.fixed := by
    intro w known
    have same : w.fixed = v := by
      simpa [Listing.fixed?, known] using found
    have fixedStorage : w.storage.fixed = .named name false true position 0 := by
      rw [← storage, ← same]
      rfl
    unfold Variable.fixed
    rw [fixedStorage]
    rfl
  have sameVariables : ∀ other,
      (before.listing.modifyVariable id change).fixed? other = before.listing.fixed? other :=
    fun other => Listing.fixed?_modifyVariable before.listing id keeps other
  have frozen := Listing.frozen_modifyVariable before.listing id change
  have nodes := congrArg Listing.Frozen.nodes frozen
  have strings := congrArg Listing.Frozen.strings frozen
  have labels := congrArg Listing.Frozen.labels frozen
  have calls := congrArg Listing.Frozen.callCount frozen
  have functions := Listing.functions_modifyVariable before.listing id change
  simp only [Listing.frozen] at nodes strings labels calls
  refine .of_same_nodes ?_ rfl nodes ?_ rfl fun _ old => .inl old
  · exact
      { nodes := by
          show _ <+: (before.listing.modifyVariable id change).nodes.toList
          simp [nodes]
        size := by
          show _ ≤ (before.listing.modifyVariable id change).vars.size
          simp
        stable := fun other _ => sameVariables other
        strings := by
          show _ <+: (before.listing.modifyVariable id change).strings.contents
          simp [strings]
        labels := by
          show _ <+: (before.listing.modifyVariable id change).labels
          simp [labels]
        scopes := ScopeTree.extends_bind _ _ _ _
        calls := by
          show _ ≤ (before.listing.modifyVariable id change).callCount
          exact Nat.le_of_eq calls.symm
        signatures := by
          intro other signature knownSignature
          show ((before.listing.modifyVariable id change).signature? other) = _
          unfold Listing.signature? Listing.function?
          rw [functions]
          exact knownSignature
        numbered := by
          intro numbered other w otherFound
          exact numbered other w ((sameVariables other).symm.trans otherFound)
        recorded := by
          intro recorded other position used
          show ∃ node, (before.listing.modifyVariable id change).nodes[position]? = some node ∧ _
          rw [nodes]
          refine Listing.recorded_modifyVariable recorded id ?_ other position used
          intro v
          rfl }
  · show (before.listing.modifyVariable id change).tags = _
    rw [Listing.tags, functions]
    rfl

/-- A scope is inside a function: it is in the tree, and it is not the module scope. -/
def Inside (tree : ScopeTree) (scope : Nat) : Prop :=
  ∃ found, tree.get? scope = some found ∧ found.parent ≠ none

theorem Inside.isModule
    {tree : ScopeTree}
    (inside : Inside tree scope) :
    tree.isModule scope = false := by
  obtain ⟨found, known, parent⟩ := inside
  unfold ScopeTree.isModule
  rw [known]
  cases same : found.parent with
  | none => exact (parent same).elim
  | some => simp [same]

/-- A scope inside a function stays there. -/
theorem Inside.grown
    {earlier later : ScopeTree}
    (grown : earlier.Extends later)
    (inside : Inside earlier scope) :
    Inside later scope := by
  obtain ⟨found, known, parent⟩ := inside
  obtain ⟨more, moreKnown, same⟩ := grown scope found known
  exact ⟨more, moreKnown, by rwa [same.parent]⟩

/-- A scope that has just been opened is inside a function. -/
theorem inside_addChild
    (tree : ScopeTree)
    (parent : Nat)
    (kind : Scope.Kind) :
    Inside (tree.addChild parent kind).1 tree.size := by
  refine ⟨.fresh kind (some parent), ?_, by simp [Scope.fresh]⟩
  unfold ScopeTree.get? ScopeTree.addChild ScopeTree.size
  simp

/-- What is lowered inside a function leaves the state inside it. -/
theorem Inside.proceeds
    (inside : Inside before.listing.scopes before.scope)
    (proceeded : before.Proceeds after) :
    Inside after.listing.scopes after.scope := by
  rw [scope_of_proceeds proceeded]
  exact inside.grown proceeded.extends_.scopes

theorem inside_entered
    (state : LoweringState)
    (kind : Scope.Kind)
    (exitLabel : String) :
    Inside (state.entered kind exitLabel).listing.scopes (state.entered kind exitLabel).scope := by
  have opened := inside_addChild state.listing.scopes state.scope kind
  unfold entered labelled
  simpa [appended, LoweringState.opened, LoweringState.scope, newFrame] using opened

theorem nodes_bound
    (state : LoweringState)
    (scope : Nat)
    (id : VarId)
    (name : String)
    (isGlobal isParam : Bool)
    (position : Nat) :
    (state.bound scope id name isGlobal isParam position).listing.nodes = state.listing.nodes :=
  congrArg Listing.Frozen.nodes (Listing.frozen_modifyVariable state.listing id _)

variable
    {ids : List VarId}

/-- Binding parameters adds no nodes. -/
theorem bindParameters_proceeds
    (inside : Inside before.listing.scopes scope)
    (known : ∀ id ∈ ids, before.listing.IsParameter id)
    (lowered : bindParameters scope line ids before = .ok (done, after)) :
    before.Proceeds after ∧ after.listing.nodes = before.listing.nodes := by
  induction ids generalizing before with
  | nil =>
      rw [bindParameters] at lowered
      obtain ⟨-, rfl⟩ := pure_ok_iff.mp lowered
      exact ⟨.refl _, rfl⟩
  | cons id rest inductionHypothesis =>
      obtain ⟨v, name, position, found, storage, _⟩ := known id (by simp)
      obtain ⟨_, restLowered⟩ := bindParameters_cons_ok inside.isModule found storage lowered
      have first := proceeds_bound scope found storage
      have others := inductionHypothesis (inside.grown first.extends_.scopes)
        (fun other member => first.extends_.isParameter (known other (by simp [member])))
        restLowered
      exact ⟨first.trans others.1, others.2.trans (nodes_bound _ _ _ _ _ _ _)⟩

/-- Entering a function adds its first nodes, all of them its own. -/
theorem grows_prepared
    (state : LoweringState)
    (function : Signature)
    (locals : Nat) :
    ({ state with function := some function } : LoweringState).Grows
      (state.prepared function locals) := by
  unfold prepared enteredBy
  refine Grows.trans ?_ (grows_appended _ _)
  refine (grows_appended _ (.entry function)).trans ?_
  refine (grows_opened _ .function "").trans ?_
  refine .of_same_nodes ?_ rfl rfl ?_ fun _ old => .inl old
  · refine { Listing.Extends.refl _ with signatures := ?_ }
    intro name signature known
    rw [← known]
    apply Listing.signature?_modifyFunction
    intro lowered
    rfl
  · apply Listing.tags_modifyFunction
    intro lowered
    rfl

theorem nodes_prepared
    (state : LoweringState)
    (function : Signature)
    (locals : Nat) :
    (state.prepared function locals).listing.nodes =
      (state.listing.nodes.push (.entry function)).push (.prologue function locals) := by
  simp [prepared, enteredBy, opened, Listing.modifyFunction]

theorem proceeds_begun
    (state : LoweringState)
    (function : Signature)
    (locals : Nat) :
    (state.prepared function locals).Proceeds (state.begun function locals) :=
  (proceeds_labelled _ _).trans (proceeds_appended _ rfl)

theorem inside_begun
    (state : LoweringState)
    (function : Signature)
    (locals : Nat) :
    Inside (state.begun function locals).listing.scopes state.listing.scopes.size := by
  have opened := inside_addChild state.listing.scopes state.scope .function
  unfold begun labelled prepared enteredBy
  simpa [appended, LoweringState.opened, Listing.modifyFunction, LoweringState.scope] using opened

theorem scope_begun
    (state : LoweringState)
    (function : Signature)
    (locals : Nat) :
    (state.begun function locals).scope = state.listing.scopes.size := by
  simp [begun, labelled, prepared, enteredBy, appended, LoweringState.opened, newFrame,
    LoweringState.scope]

theorem proceeds_closed
    (state : LoweringState) :
    state.Proceeds state.closed :=
  (computes_emptied state).toProceeds.trans (proceeds_labelled _ _)

theorem grows_finished
    (state : LoweringState)
    (function : Signature)
    (scope : Nat) :
    state.Grows (state.finished function scope) := by
  unfold finished
  refine Grows.trans ?_ (grows_appended _ _)
  exact (proceeds_closed state).toGrows.trans (grows_appended _ _)

/-- Lowering a body adds nodes of its function, whose first node is the entry. -/
theorem functionBody_grows
    (known : before.listing.Parameters function)
    (lowered : functionBody function body before = .ok (done, after)) :
    ∃ last : LoweringState,
      after = last.outside ∧
        ({ before with function := some function } : LoweringState).Grows last ∧
        before.listing.nodes.size < last.listing.nodes.size := by
  obtain ⟨bound, between, parametersBound, bodyLowered, _, rfl⟩ := functionBody_ok lowered
  have first := (grows_prepared before function (declarationsIn body)).trans
    (proceeds_begun before function (declarationsIn body)).toGrows
  have binds := bindParameters_proceeds (inside_begun before function _)
    (first.extends_.parameters known) parametersBound
  have rest := binds.1.toGrows.trans
    ((statements_proceeds bodyLowered).toGrows.trans
      (grows_finished between function before.listing.scopes.size))
  refine ⟨_, rfl, first.trans rest, ?_⟩
  have entered : before.listing.nodes.size <
      (before.prepared function (declarationsIn body)).listing.nodes.size := by
    simp only [nodes_prepared, Array.size_push]
    omega
  have later := (proceeds_begun before function (declarationsIn body)).extends_.trans
    rest.extends_
  exact Nat.lt_of_lt_of_le entered later.size_nodes

variable
    {stmts : List Stmt}

theorem moduleVariables_proceeds
    (lowered : moduleVariables stmts before = .ok (done, after)) :
    before.Proceeds after := by
  induction stmts generalizing before with
  | nil =>
      rw [moduleVariables] at lowered
      obtain ⟨-, rfl⟩ := pure_ok_iff.mp lowered
      exact .refl _
  | cons first rest inductionHypothesis =>
      cases first with
      | declare line name type initial =>
          rw [moduleVariables] at lowered
          obtain ⟨_, _, declared, others⟩ := bind_ok_iff.mp lowered
          exact (declare_proceeds declared).trans (inductionHypothesis others)
      | _ => exact inductionHypothesis lowered

/-- What declaring functions leaves alone: everything but variables and functions. -/
structure Declares (before after : LoweringState) : Prop where
  extends_ : before.listing.Extends after.listing
  frozen : after.listing.frozen = before.listing.frozen
  function : after.function = before.function
  frames : after.frames = before.frames
  added : ∀ id v, before.listing.vars.size < id → after.listing.fixed? id = some v →
    after.listing.IsParameter id

namespace Declares

theorem refl
    (state : LoweringState) :
    Declares state state where
  extends_ := .refl _
  frozen := rfl
  function := rfl
  frames := rfl
  added _ _ isNew found := (Nat.not_lt_of_le (Listing.le_size_of_fixed? found).2 isNew).elim

theorem trans
    {first second third : LoweringState}
    (earlier : Declares first second)
    (later : Declares second third) :
    Declares first third where
  extends_ := earlier.extends_.trans later.extends_
  frozen := later.frozen.trans earlier.frozen
  function := later.function.trans earlier.function
  frames := later.frames.trans earlier.frames
  added id v isNew found := by
    by_cases isOld : id ≤ second.listing.vars.size
    · rw [later.extends_.stable id isOld] at found
      exact later.extends_.isParameter (earlier.added id v isNew found)
    · exact later.added id v (Nat.lt_of_not_le isOld) found

end Declares

theorem extends_withParameter
    (state : LoweringState)
    (param : Param)
    (position : Nat) :
    state.listing.Extends (state.withParameter param position).listing :=
  extends_addVariable state.listing param.type (.literal "") fun _ =>
    .named param.name false true position 0

theorem fixed?_withParameter
    (state : LoweringState)
    (param : Param)
    (position : Nat) :
    (state.withParameter param position).listing.fixed? (state.listing.vars.size + 1) =
      some { id := state.listing.vars.size + 1, type := param.type, value := .literal "",
             preserved := false, lastUse := none,
             storage := .named param.name false true position 0 } := by
  show (state.listing.addVariable param.type (.literal "") fun _ =>
    .named param.name false true position 0).1.fixed? (state.listing.vars.size + 1) = _
  rw [Listing.fixed?_addVariable]
  simp [Storage.fixed]

/-- A parameter becomes a variable of its own unless it has a type that no parameter can have. -/
theorem parameters_cons_ok
    {param : Param}
    {rest : List Param}
    (lowered : parameters position (param :: rest) before = .ok (ids, after)) :
    param.type.isArray = false ∧ param.type ≠ .void ∧
      ∃ others,
        ids = (before.listing.vars.size + 1) :: others ∧
          parameters (position + 1) rest (before.withParameter param position) =
            .ok (others, after) := by
  rw [parameters] at lowered
  by_cases unusable : param.type.isArray = true ∨ param.type = .void
  · simp only [unusable, ↓reduceIte] at lowered
    obtain ⟨_, _, failed, -⟩ := bind_ok_iff.mp lowered
    exact (fail_ok_iff.mp failed).elim
  simp only [unusable, ↓reduceIte, bind_ok_iff, onListing_ok_iff] at lowered
  obtain ⟨id, _, ⟨rfl, rfl⟩, others, _, restLowered, returned⟩ := lowered
  obtain ⟨rfl, rfl⟩ := pure_ok_iff.mp returned
  rw [not_or, Bool.not_eq_true] at unusable
  exact ⟨unusable.1, unusable.2, others, rfl, restLowered⟩

variable
    {params : List Param}

/-- Parameters become variables of their own, one for each. -/
theorem parameters_ok
    (lowered : parameters position params before = .ok (ids, after)) :
    Declares before after ∧ after.listing.functions = before.listing.functions ∧
      ids.length = params.length ∧ (∀ id ∈ ids, after.listing.IsParameter id) ∧
      after.listing.Ordered ids position := by
  induction params generalizing before position ids with
  | nil =>
      rw [parameters] at lowered
      obtain ⟨rfl, rfl⟩ := pure_ok_iff.mp lowered
      refine ⟨.refl _, rfl, rfl, by simp, ?_⟩
      intro position id isParam
      simp at isParam
  | cons param rest inductionHypothesis =>
      obtain ⟨_, _, others, rfl, restLowered⟩ := parameters_cons_ok lowered
      obtain ⟨later, functions, length, known, ordered⟩ := inductionHypothesis restLowered
      have found := fixed?_withParameter before param position
      have first : Declares before (before.withParameter param position) := by
        refine ⟨extends_withParameter before param position, rfl, rfl, rfl, ?_⟩
        intro id v isNew isFound
        have inside : id ≤ before.listing.vars.size + 1 := by
          simpa [withParameter, Listing.addNamed] using (Listing.le_size_of_fixed? isFound).2
        rw [Nat.le_antisymm inside isNew]
        exact ⟨_, param.name, position, found, rfl, rfl⟩
      refine ⟨first.trans later, functions, by simp [length], ?_, ?_⟩
      · intro id member
        rcases List.mem_cons.mp member with isFirst | inRest
        · subst isFirst
          exact ⟨_, param.name, position, later.extends_.fixed?_of found, rfl, rfl⟩
        · exact known id inRest
      · intro index id isParam
        cases index with
        | zero =>
            cases isParam
            exact ⟨_, param.name, later.extends_.fixed?_of found, rfl⟩
        | succ index =>
            rw [List.getElem?_cons_succ] at isParam
            rw [show position + (index + 1) = position + 1 + index by omega]
            exact ordered index id isParam

/-- Declaring a function keeps those that are declared. -/
theorem extends_withFunction
    (state : LoweringState)
    (signature : Signature) :
    state.listing.Extends (state.withFunction signature).listing := by
  refine { Listing.Extends.refl state.listing with signatures := ?_ }
  intro other found knownOther
  unfold Listing.signature? Listing.function? at knownOther ⊢
  simp only [withFunction, List.find?_append]
  cases here : state.listing.functions.find? fun f => f.signature.name == other with
  | none => simp [here] at knownOther
  | some function => simpa [here] using knownOther

/-- A function is declared behind its parameters, of which the entry has none. -/
theorem declareFunction_steps
    {result : Ty}
    (lowered : declareFunction line name params result before = .ok (done, after)) :
    ∃ ids between,
      parameters 0 params before = .ok (ids, between) ∧ (name = entryName → ids = []) ∧
        between.listing.function? name = none ∧
        after = between.withFunction
          { name := name, result := if result = .absent then .void else result, params := ids,
            line := line } := by
  unfold declareFunction at lowered
  obtain ⟨ids, between, created, later⟩ := bind_ok_iff.mp lowered
  generalize (if result = .absent then Ty.void else result) = given at later ⊢
  refine ⟨ids, between, created, ?_⟩
  dsimp only at later
  cases rejected : ({ name := name, result := given, params := ids, line := line } :
      Signature).isEntry && !ids.isEmpty with
  | true =>
      simp only [rejected, ↓reduceIte] at later
      obtain ⟨_, _, failed, -⟩ := bind_ok_iff.mp later
      exact (fail_ok_iff.mp failed).elim
  | false =>
      simp only [rejected, Bool.false_eq_true, ↓reduceIte] at later
      obtain ⟨_, _, got, tested⟩ := bind_ok_iff.mp later
      obtain ⟨rfl, rfl⟩ := get_ok_iff.mp got
      cases free : between.listing.function? name with
      | some other =>
          simp only [free, Option.isSome_some, ↓reduceIte] at tested
          obtain ⟨_, _, failed, -⟩ := bind_ok_iff.mp tested
          exact (fail_ok_iff.mp failed).elim
      | none =>
          simp only [free, Option.isSome_none, Bool.false_eq_true, ↓reduceIte] at tested
          refine ⟨fun isEntry => ?_, rfl, (modify_ok_iff.mp tested).symm⟩
          simpa [Signature.isEntry, isEntry] using rejected

/-- A function is declared once, under a name that was free, with variables as parameters. -/
theorem declareFunction_ok
    {result : Ty}
    (lowered : declareFunction line name params result before = .ok (done, after)) :
    ∃ signature : Signature,
      signature.name = name ∧ signature.params.length = params.length ∧
        signature.result = (if result = .absent then .void else result) ∧
        (name = entryName → params = []) ∧
        Declares before after ∧ before.listing.signature? name = none ∧
        after.listing.tags = before.listing.tags ++ [(signature, 0, 0)] ∧
        after.listing.signature? name = some signature ∧
        after.listing.Parameters signature ∧ after.listing.Ordered signature.params 0 ∧
        signature.line = line := by
  obtain ⟨ids, between, created, isEntry, free, rfl⟩ := declareFunction_steps lowered
  obtain ⟨declares, functions, length, known, ordered⟩ := parameters_ok created
  let signature : Signature :=
    { name := name, result := if result = .absent then .void else result, params := ids,
      line := line }
  have entry : name = entryName → params = [] := by
    intro named
    rw [isEntry named] at length
    exact List.length_eq_zero_iff.mp length.symm
  have freeBefore : before.listing.function? name = none := by
    unfold Listing.function? at free ⊢
    rw [← functions]
    exact free
  have grown := extends_withFunction between signature
  refine ⟨signature, rfl, length, rfl, entry, ?_, ?_, ?_, ?_, ?_, grown.ordered ordered, rfl⟩
  · refine declares.trans ⟨grown, rfl, rfl, rfl, ?_⟩
    exact fun _ _ isNew found =>
      (Nat.not_lt_of_le (Listing.le_size_of_fixed? found).2 isNew).elim
  · unfold Listing.signature?
    rw [freeBefore]
    rfl
  · simp [Listing.tags, withFunction, functions, signature]
  · unfold Listing.signature? Listing.function? at *
    simp only [withFunction, List.find?_append, free]
    simp [signature]
  · intro id member
    obtain ⟨v, paramName, place, found, storage⟩ := known id member
    exact ⟨v, paramName, place, grown.fixed?_of found, storage⟩

/-- The names of the functions among module statements, in order. -/
def functionNames : List Stmt → List String
  | [] => []
  | .function _ name _ _ _ _ :: rest => name :: functionNames rest
  | _ :: rest => functionNames rest

/-- Every function among module statements has been declared. -/
def Declared (stmts : List Stmt) (listing : Listing) : Prop :=
  ∀ ⦃line name params result bodyLine body⦄,
    Stmt.function line name params result bodyLine body ∈ stmts →
      ∃ signature,
        listing.signature? name = some signature ∧ listing.Parameters signature ∧
          signature.params.length = params.length ∧
          signature.result = (if result = .absent then .void else result) ∧
          (name = entryName → params = []) ∧ listing.Ordered signature.params 0 ∧
          signature.line = line

theorem Declared.grown
    (grown : earlier.Extends later)
    (declared : Declared stmts earlier) :
    Declared stmts later := by
  intro line name params result bodyLine body member
  obtain ⟨signature, known, parameters, length, result, entry, ordered, here⟩ := declared member
  exact ⟨signature, grown.signatures name signature known, grown.parameters parameters, length,
    result, entry, grown.ordered ordered, here⟩

/-- Functions are declared in order, each under a name of its own. -/
theorem moduleFunctions_ok
    (lowered : moduleFunctions stmts before = .ok (done, after)) :
    Declares before after ∧ Declared stmts after.listing ∧
      ∃ added : List (Signature × Nat × Nat),
        after.listing.tags = before.listing.tags ++ added ∧
          added.map (fun tag => tag.1.name) = functionNames stmts ∧
          (∀ tag ∈ added, tag.2 = (0, 0)) ∧
          ((before.listing.tags.map fun tag => tag.1.name).Nodup →
            (after.listing.tags.map fun tag => tag.1.name).Nodup) := by
  induction stmts generalizing before with
  | nil =>
      rw [moduleFunctions] at lowered
      obtain ⟨-, rfl⟩ := pure_ok_iff.mp lowered
      refine ⟨.refl _, ?_, [], by simp, rfl, by simp, fun distinct => distinct⟩
      intro line name params result bodyLine body member
      simp at member
  | cons first rest inductionHypothesis =>
      cases first with
      | function line name params result bodyLine body =>
          rw [moduleFunctions] at lowered
          obtain ⟨_, between, declared, others⟩ := bind_ok_iff.mp lowered
          obtain ⟨signature, rfl, paramsLength, resultType, entry, declares, free, tags, known,
            parameters, ordered, here⟩ := declareFunction_ok declared
          obtain ⟨later, restDeclared, added, moreTags, names, zero, distinct⟩ :=
            inductionHypothesis others
          refine ⟨declares.trans later, ?_, (signature, 0, 0) :: added, ?_, ?_, ?_, ?_⟩
          · intro line' name' params' result' bodyLine' body' member
            rcases List.mem_cons.mp member with isFirst | inRest
            · cases isFirst
              exact ⟨signature, later.extends_.signatures _ _ known,
                later.extends_.parameters parameters, paramsLength, resultType, entry,
                later.extends_.ordered ordered, here⟩
            · exact restDeclared inRest
          · rw [moreTags, tags, List.append_assoc]
            rfl
          · simp [functionNames, names]
          · intro tag member
            rcases List.mem_cons.mp member with isFirst | inRest
            · rw [isFirst]
            · exact zero tag inRest
          · intro distinctBefore
            apply distinct
            rw [tags, List.map_append]
            refine List.nodup_append.mpr ⟨distinctBefore, by simp, ?_⟩
            intro taken member other isNew same
            simp only [List.map_cons, List.map_nil, List.mem_singleton] at isNew
            subst isNew same
            exact Listing.fresh_name free member
      | _ =>
          obtain ⟨declares, declared, added, tags, names, zero, distinct⟩ :=
            inductionHypothesis lowered
          refine ⟨declares, ?_, added, tags, names, zero, distinct⟩
          intro line name params result bodyLine body member
          rcases List.mem_cons.mp member with isFirst | inRest
          · cases isFirst
          · exact declared inRest

/-- The bodies among module statements are lowered one after the other. -/
inductive Bodies : List Stmt → LoweringState → LoweringState → Prop
  | nil (state : LoweringState) : Bodies [] state state
  | declare {line : Nat} {name : String} {type : Ty} {initial : Option Expr} {rest : List Stmt}
      {before after : LoweringState} :
      Bodies rest before after → Bodies (.declare line name type initial :: rest) before after
  | function {line : Nat} {name : String} {params : List Param} {result : Ty} {bodyLine : Nat}
      {body rest : List Stmt} {function : Signature} {before between after : LoweringState} :
      before.listing.signature? name = some function →
        functionBody function body before = .ok ((), between) →
        Bodies rest between after →
        Bodies (.function line name params result bodyLine body :: rest) before after

theorem bodies_ok
    {number : Nat}
    {started : List String}
    (lowered : Lowering.bodies (fun _ => false) number stmts before = (started, .ok after)) :
    Bodies stmts before after := by
  induction stmts generalizing before number started with
  | nil =>
      simp only [Lowering.bodies, Prod.mk.injEq, Except.ok.injEq] at lowered
      cases lowered.2
      exact .nil _
  | cons first rest inductionHypothesis =>
      cases first with
      | declare line name type initial =>
          rw [Lowering.bodies] at lowered
          exact .declare (inductionHypothesis lowered)
      | function line name params result bodyLine body =>
          simp only [Lowering.bodies, Bool.false_eq_true, ↓reduceIte] at lowered
          cases known : before.listing.function? name with
          | none => simp [known] at lowered
          | some function =>
              simp only [known] at lowered
              cases run : functionBody function.signature body before with
              | error failure => simp [run] at lowered
              | ok pair =>
                  rcases pair with ⟨_, between⟩
                  simp only [run, Prod.mk.injEq] at lowered
                  refine .function (by simp [Listing.signature?, known]) run ?_
                  exact inductionHypothesis (Prod.ext rfl lowered.2)
      | _ => simp [Lowering.bodies] at lowered

variable
    {program : Program}

/-- In front of the bodies there are two passes: global variables and signatures. -/
theorem declarations_ok
    (lowered : declarations program before = .ok (done, after)) :
    ∃ globals,
      moduleVariables program.statements before = .ok ((), globals) ∧
        moduleFunctions program.statements globals = .ok ((), after) ∧
        (after.listing.function? entryName).isSome := by
  unfold declarations at lowered
  simp only [bind_ok_iff, get_ok_iff] at lowered
  obtain ⟨_, globals, globalsLowered, _, between, functions, _, _, ⟨rfl, rfl⟩, checked⟩ := lowered
  cases entry : between.listing.function? entryName with
  | none =>
      simp only [entry, Option.isNone_none, ↓reduceIte] at checked
      exact (fail_ok_iff.mp checked).elim
  | some function =>
      simp only [entry, Option.isNone_some, Bool.false_eq_true, ↓reduceIte] at checked
      obtain ⟨-, rfl⟩ := pure_ok_iff.mp checked
      exact ⟨globals, globalsLowered, functions, by simp [entry]⟩

/-- A program is lowered in three passes: global variables, signatures, bodies. -/
theorem lower_ok
    {listing : Listing}
    (lowered : program.lower = .ok listing) :
    ∃ globals declared final,
      moduleVariables program.statements (start program.file) = .ok ((), globals) ∧
        moduleFunctions program.statements globals = .ok ((), declared) ∧
        (declared.listing.function? entryName).isSome ∧
        Bodies program.statements declared final ∧ listing = final.listing := by
  unfold Program.lower Lowering.ofProgram at lowered
  cases first : declarations program (start program.file) with
  | error failure => simp [first] at lowered
  | ok pair =>
      rcases pair with ⟨_, declared⟩
      simp only [first] at lowered
      obtain ⟨globals, globalsLowered, functions, entry⟩ := declarations_ok first
      cases run : Lowering.bodies (fun _ => false) 0 program.statements declared with
      | mk started result =>
          cases result with
          | error failure => simp [run] at lowered
          | ok final =>
              simp only [run, Except.ok.injEq] at lowered
              exact ⟨globals, declared, final, globalsLowered, functions, entry, bodies_ok run,
                lowered.symm⟩

end Lower

end IlsCompiler
