import IlsCompiler.Proofs.Lowering.CallCounts
import IlsCompiler.Proofs.Lowering.ProgramLifetimes

namespace IlsCompiler

/-!
# Statements leave no call waiting

A statement uses up the value of each of its expressions: it is stored, compared, returned or given
up. So what an expression leaves waiting is asked for by the node that takes it, and a listing that
is balanced with nothing waiting stays so through every statement, function and program.
-/

namespace LoweringState

/-! ## Relations that plain steps keep -/

/--
A relation between states that goes on from one state to the next, and that holds along steps that
add no variables, count no calls and append only plain nodes.
-/
structure Plainly (along : LoweringState → LoweringState → Prop) : Prop where
  refl : ∀ state, along state state
  trans : ∀ {before between after}, along before between → along between after → along before after
  same : ∀ {before after : LoweringState}, before.listing.Extends after.listing →
    after.function = before.function →
    (∀ name, after.listing.calls name = before.listing.calls name) →
    after.listing.vars.size = before.listing.vars.size →
    after.listing.nodes = before.listing.nodes → along before after
  plain : ∀ (state : LoweringState) {node : Node}, node.isPlain → along state (state.appended node)

namespace Plainly

variable
    {along : LoweringState → LoweringState → Prop}
    {before after : LoweringState}

theorem labelled
    (plainly : Plainly along)
    (state : LoweringState)
    (name : String) :
    along state (state.labelled name) :=
  let declared : LoweringState :=
    { state with listing := { state.listing with labels := state.listing.labels ++ [name] } }
  have declares : along state declared :=
    plainly.same (extends_labels state name) rfl (fun _ => rfl) rfl rfl
  plainly.trans declares (plainly.plain declared rfl)

theorem numbered
    (plainly : Plainly along)
    (state : LoweringState) :
    along state state.numbered :=
  plainly.same (proceeds_numbered state).extends_ rfl (fun _ => rfl) rfl rfl

theorem withString
    (plainly : Plainly along)
    (state : LoweringState)
    (text : Bytes) :
    along state (state.withString text) :=
  plainly.same (proceeds_withString state text).extends_ rfl (fun _ => rfl) rfl rfl

theorem defaulted
    (plainly : Plainly along)
    (state : LoweringState)
    (type : Ty) :
    along state (Lower.defaulted state type) := by
  unfold Lower.defaulted
  split
  · exact plainly.withString _ _
  · exact plainly.refl _

theorem destroyed
    (plainly : Plainly along)
    (state : LoweringState)
    (id : VarId) :
    along state (state.destroyed id) := by
  unfold LoweringState.destroyed
  split
  · let fewer : LoweringState := { state with
      frames := state.frames.map fun (open_ : Frame) =>
        { open_ with temporaries := open_.temporaries.erase id } }
    have drops : along state fewer := plainly.same (.refl _) rfl (fun _ => rfl) rfl rfl
    exact plainly.trans drops (plainly.plain fewer rfl)
  · exact plainly.refl _

theorem opened
    (plainly : Plainly along)
    (state : LoweringState)
    (kind : Scope.Kind)
    (exitLabel : String) :
    along state (state.opened kind exitLabel) :=
  plainly.same (grows_opened state kind exitLabel).extends_ rfl (fun _ => rfl) rfl rfl

theorem closed
    (plainly : Plainly along)
    (state : LoweringState) :
    along state state.closed := by
  have each : ∀ (ids : List VarId) (start : LoweringState),
      along start (ids.foldl (fun current id => current.appended (.destroy id)) start) := by
    intro ids
    induction ids with
    | nil => exact plainly.refl
    | cons first rest inductionHypothesis =>
        intro start
        exact plainly.trans (plainly.plain start rfl) (inductionHypothesis _)
  exact plainly.trans (each _ state) (plainly.labelled _ _)

theorem inScope
    (plainly : Plainly along)
    {kind : Scope.Kind}
    {exitLabel : String}
    {body : Lower Unit}
    (each : ∀ {before after : LoweringState}, body before = .ok ((), after) → along before after)
    (lowered : Lower.inScope kind exitLabel body before = .ok ((), after)) :
    along before after := by
  obtain ⟨between, _, bodyLowered, _, rfl⟩ := Lower.inScope_ok lowered
  have enters : along before (before.entered kind exitLabel) :=
    plainly.trans (plainly.trans (plainly.opened _ _ _) (plainly.labelled _ _)) (plainly.plain _ rfl)
  have leaves : along between between.closed.popped :=
    plainly.trans (plainly.closed between) (plainly.same (.refl _) rfl (fun _ => rfl) rfl rfl)
  exact plainly.trans (plainly.trans enters (each bodyLowered)) leaves

/-- The terms of a condition are compared one after the other, with plain steps in between. -/
theorem conditionTerms
    (plainly : Plainly along)
    {good : Comparison → Prop}
    (compares : ∀ {term left right test before between}, good term →
      Lower.comparison term before = .ok ((left, right, test), between) →
        along before (between.appended (.compare left right term.line)))
    {whenTrue whenFalse : String}
    {terms : List Comparison}
    {joins : List Logic}
    (goods : ∀ term ∈ terms, good term)
    (lowered : Lower.conditionTerms whenTrue whenFalse terms joins before = .ok ((), after)) :
    along before after := by
  induction terms generalizing before joins with
  | nil =>
      cases Lower.conditionTerms_nil_ok lowered
      exact plainly.refl _
  | cons term rest inductionHypothesis =>
      obtain ⟨left, right, test, between, compared, others⟩ := Lower.conditionTerms_cons_ok lowered
      rw [List.forall_mem_cons] at goods
      refine plainly.trans (plainly.trans (compares goods.1 compared) (plainly.trans
        (plainly.trans (plainly.destroyed _ left) (plainly.destroyed _ right))
        (plainly.plain _ ?_))) (inductionHypothesis goods.2 others)
      unfold Lower.termJump
      split <;> rfl

theorem condition
    (plainly : Plainly along)
    {good : Comparison → Prop}
    (compares : ∀ {term left right test before between}, good term →
      Lower.comparison term before = .ok ((left, right, test), between) →
        along before (between.appended (.compare left right term.line)))
    {test : Option Condition}
    {whenTrue whenFalse : String}
    {falseFollows : Bool}
    (goods : ∀ chain, test = some chain → chain.terms ≠ [] → ∀ term ∈ chain.terms, good term)
    (lowered : Lower.condition test whenTrue whenFalse falseFollows before = .ok ((), after)) :
    along before after := by
  obtain ⟨chain, between, isChain, some_, terms, rfl⟩ := Lower.condition_ok lowered
  refine plainly.trans (plainly.conditionTerms compares (goods chain isChain some_) terms) ?_
  split
  · exact plainly.refl _
  · exact plainly.plain _ rfl

theorem bindParameters
    (plainly : Plainly along)
    {scope line : Nat}
    {ids : List VarId}
    (inside : Lower.Inside before.listing.scopes scope)
    (known : ∀ id ∈ ids, before.listing.IsParameter id)
    (lowered : Lower.bindParameters scope line ids before = .ok ((), after)) :
    along before after := by
  induction ids generalizing before with
  | nil =>
      rw [Lower.bindParameters] at lowered
      obtain ⟨-, rfl⟩ := Stateful.pure_ok_iff.mp lowered
      exact plainly.refl _
  | cons id rest inductionHypothesis =>
      obtain ⟨v, name, position, found, storage, _⟩ := known id (by simp)
      obtain ⟨_, restLowered⟩ := Lower.bindParameters_cons_ok inside.isModule found storage lowered
      have grown := (Lower.proceeds_bound scope found storage).extends_
      have binds : along before (before.bound scope id name false true position) :=
        plainly.same grown rfl (fun _ => Listing.calls_congr (by simp [LoweringState.bound]) _)
          (by simp [LoweringState.bound]) (Lower.nodes_bound _ _ _ _ _ _ _)
      exact plainly.trans binds (inductionHypothesis (inside.grown grown.scopes)
        (fun other member => grown.isParameter (known other (by simp [member]))) restLowered)

/-- Behind its entry a function begins with plain steps. -/
theorem begun
    (plainly : Plainly along)
    (state : LoweringState)
    (function : Signature)
    (locals : Nat) :
    along (state.enteredBy function) (state.begun function locals) := by
  let opened := (state.enteredBy function).opened .function ""
  let placed : LoweringState := { opened with
    listing := opened.listing.modifyFunction function.name fun lowered =>
      { lowered with scope := some (state.enteredBy function).listing.scopes.size } }
  have scopes : along opened placed := by
    refine plainly.same { Listing.Extends.refl opened.listing with signatures := ?_ } rfl
      (fun name => ?_) rfl rfl
    · intro name signature known
      rw [← known]
      apply Listing.signature?_modifyFunction
      intro lowered
      rfl
    · exact Listing.calls_modifyFunction_of_same _ _ _ (fun _ => rfl) fun _ => rfl
  have prepares : along (state.enteredBy function) (state.prepared function locals) :=
    plainly.trans (plainly.trans (plainly.opened _ _ _) scopes) (plainly.plain placed rfl)
  exact plainly.trans (plainly.trans prepares (plainly.labelled _ _)) (plainly.plain _ rfl)

/-- The nodes of a function around its body are plain, all but its entry. -/
theorem functionBody
    (plainly : Plainly along)
    {function : Signature}
    {body : List Stmt}
    (known : before.listing.Parameters function)
    (enters : along { before with function := some function } (before.enteredBy function))
    (inside : ∀ {bound between}, Lower.statements body bound = .ok ((), between) →
      along bound between)
    (lowered : Lower.functionBody function body before = .ok ((), after)) :
    ∃ finished, along { before with function := some function } finished ∧
      after = finished.outside := by
  obtain ⟨bound, between, parametersBound, bodyLowered, _, rfl⟩ := Lower.functionBody_ok lowered
  have grown := Lower.extends_begun function (declarationsIn body) before
  have binds := plainly.bindParameters (Lower.inside_begun before function (declarationsIn body))
    (grown.parameters known) parametersBound
  have begins := plainly.trans enters (plainly.begun before function (declarationsIn body))
  have finishes : along between (between.finished function before.listing.scopes.size) :=
    plainly.trans (plainly.trans (plainly.closed between) (plainly.plain _ rfl)) (plainly.plain _ rfl)
  exact ⟨_, plainly.trans (plainly.trans (plainly.trans begins binds) (inside bodyLowered)) finishes,
    rfl⟩

end Plainly

/-- A step that extends the listing and asks for every call that it counts. -/
structure Pays (before after : LoweringState) : Prop where
  extends_ : before.listing.Extends after.listing
  balanced : before.listing.Numbered → ∀ waiting, before.listing.Balanced waiting →
    after.listing.Balanced waiting

namespace Pays

variable
    {before between after : LoweringState}

theorem refl
    (state : LoweringState) :
    state.Pays state :=
  ⟨.refl _, fun _ _ balanced => balanced⟩

theorem trans
    (earlier : before.Pays between)
    (later : between.Pays after) :
    before.Pays after where
  extends_ := earlier.extends_.trans later.extends_
  balanced numbered waiting start :=
    later.balanced (earlier.extends_.numbered numbered) waiting
      (earlier.balanced numbered waiting start)

theorem appended
    (state : LoweringState)
    (node : Node)
    (other : ∀ call, node ≠ .call call) :
    state.Pays (state.appended node) where
  extends_ := extends_appended state node
  balanced _ _ start := balanced_appended start fun call same => absurd same (other call)

end Pays

theorem plainly_pays :
    Plainly Pays where
  refl := .refl
  trans := .trans
  same grown _ calls size nodes :=
    ⟨grown, fun _ _ start => start.grown grown calls (Listing.fresh_none size) []
      (by rw [nodes, List.append_nil]) fun _ member => nomatch member⟩
  plain state _ plain := .appended state _ fun _ same => by rw [same] at plain; cases plain

theorem nodes_withGlobal
    (state : LoweringState)
    (name : String)
    (type : Ty)
    (value : Value)
    (line : Nat) :
    (state.withGlobal name type value line).listing.nodes =
      state.listing.nodes.push (.declare (state.listing.vars.size + 1) line) := by
  simp [withGlobal, Listing.addNamed, Listing.addVariable]

variable
    {state : LoweringState}
    {waiting : List String}

/-- The value that a variable is stored as leads to the call that the variable waits for. -/
theorem bound_of_awaited
    {id : VarId}
    {v : Variable}
    {name : String}
    (numbered : state.listing.Numbered)
    (found : state.listing.fixed? id = some v)
    (known : state.listing.resultOf? id = some name) :
    Lower.bound v = .reference id := by
  obtain ⟨w, function, call, isFixed, storage, -⟩ := Listing.exists_of_resultOf? known
  cases found.symm.trans isFixed
  rw [Lower.bound, storage, numbered id v found]

/-- A node that makes the call a variable waits for settles it. -/
theorem balanced_taken
    {node : Node}
    {id : VarId}
    (other : ∀ call, node ≠ .call call)
    (takes : ∀ name, state.listing.resultOf? id = some name →
      name ∈ (state.appended node).listing.nodeTargets node)
    (balanced : state.listing.Balanced (waiting ++ state.awaited (some id))) :
    (state.appended node).listing.Balanced waiting := by
  refine (balanced_appended balanced fun call same => absurd same (other call)).settle
    fun name member => ?_
  obtain ⟨asked, isAsked, known⟩ := mem_awaited_iff.mp member
  cases isAsked
  exact ⟨node, by simp, takes name known⟩

end LoweringState

namespace Lower

open LoweringState Stateful

variable
    {before after : LoweringState}
    {line : Nat}
    {done : Unit}

theorem comparison_pays
    {term : Comparison}
    {result : VarId × VarId × CmpOp}
    (lowered : comparison term before = .ok (result, after)) :
    before.Pays after where
  extends_ := (comparison_computes lowered).extends_
  balanced _ waiting start := by
    obtain ⟨left, middle, right, between, _, _, _, _, leftLowered, rightLowered, _, _, _,
      leftCopied, rightCopied, _⟩ := comparison_ok lowered
    have both := expression_balanced rightLowered (expression_balanced leftLowered start)
    refine materialize_both_balanced leftCopied rightCopied (both.mono fun name member => ?_)
    have grown := (expression_computes rightLowered).extends_
    simp only [List.mem_append] at member ⊢
    exact member.imp_left (Or.imp_right fun asked => awaited_grown grown _ asked)

/-- A variable of a function is declared with a value that asks for the call it waits for. -/
theorem declare_local_pays
    {name : String}
    {type : Ty}
    {initial : Option Expr}
    (isLocal : before.listing.scopes.isModule before.scope = false)
    (lowered : declare line name type initial before = .ok (done, after)) :
    before.Pays after where
  extends_ := (declare_proceeds lowered).extends_
  balanced numbered waiting start := by
    obtain ⟨_, stored, between, initialized, _, rfl⟩ := declare_local_ok isLocal lowered
    have grown := (initializer_proceeds initialized).extends_
    obtain ⟨v, found, storage, value, _⟩ := fixed?_withLocal between name type stored line
    have declared : ∀ result : Option VarId,
        between.listing.Balanced (waiting ++ between.awaited result) →
          (∀ id name, result = some id → between.listing.resultOf? id = some name →
            stored = .reference id) →
          (between.withLocal name type stored line).listing.Balanced waiting := by
      intro result balanced refers
      refine balanced_declared balanced (proceeds_withLocal _ _ _ _ _).extends_
        (fun other => Listing.calls_appendNode _ _ _ _) ?_ found
        (fun function call same => by rw [storage] at same; cases same)
        (fun id other isId known => value.trans (refers id other isId known))
        (nodes_withLocal _ _ _ _ _)
      simp [LoweringState.withLocal, Listing.addNamed, Listing.addVariable]
    rcases initializer_ok initialized with ⟨_, _, rfl⟩ | ⟨expr, id, _, exprLowered, _, rfl⟩
    · have ready := (plainly_pays.defaulted before type).balanced numbered waiting start
      exact declared none (ready.mono (List.subset_append_left _ _)) (by rintro _ _ ⟨⟩)
    · refine declared (some id) (expression_balanced exprLowered start) ?_
      intro asked other isAsked known
      cases isAsked
      obtain ⟨w, function, call, isFixed, -⟩ := Listing.exists_of_resultOf? known
      rw [boundIn, isFixed]
      exact bound_of_awaited (grown.numbered numbered) isFixed known

theorem constant_pays
    {name : String}
    {type : Ty}
    {initial : Option Expr}
    {stored : Value}
    (lowered : constant line name type initial before = .ok (stored, after)) :
    before.Pays after := by
  rcases constant_ok lowered with ⟨_, _, rfl⟩ | ⟨_, _, texts, _, _, _, _, _, rfl⟩ |
    ⟨_, contents, _, _, _, rfl⟩ | ⟨_, _, _, _, _, _, _, _, rfl⟩
  · exact plainly_pays.defaulted _ _
  · have grown := (constant_proceeds lowered).extends_
    refine ⟨grown, fun _ waiting start => start.quiet grown rfl rfl ?_⟩
    have found := Listing.fixed?_addVariable before.listing (.array type.element type.length)
      (.literal (", ".intercalate texts)) (fun _ =>
        .array type.element type.length (", ".intercalate texts)) (before.listing.vars.size + 1)
    refine Listing.fresh_last (Array.size_push _) (found.trans (if_pos rfl)) ?_
    intro function call same
    cases same
  · exact plainly_pays.withString _ _
  · exact .refl _

/-- A global variable is declared with a constant. -/
theorem declare_module_pays
    {name : String}
    {type : Ty}
    {initial : Option Expr}
    (isModule : before.listing.scopes.isModule before.scope = true)
    (lowered : declare line name type initial before = .ok (done, after)) :
    before.Pays after := by
  rcases declare_module_ok isModule lowered with ⟨_, rfl⟩ | ⟨_, stored, between, found, rfl⟩
  · exact .refl _
  · refine (constant_pays found).trans ⟨(proceeds_withGlobal _ _ _ _ _).extends_, ?_⟩
    intro _ waiting start
    obtain ⟨v, isFixed, storage, _⟩ := fixed?_withGlobal between name type stored line
    have ready : between.listing.Balanced (waiting ++ between.awaited none) :=
      start.mono (List.subset_append_left _ _)
    refine balanced_declared ready (proceeds_withGlobal _ _ _ _ _).extends_
      (fun other => Listing.calls_appendNode _ _ _ _) ?_ isFixed
      (fun function call same => by rw [storage] at same; cases same)
      (fun id other isId => nomatch isId) (nodes_withGlobal _ _ _ _ _)
    simp [LoweringState.withGlobal, Listing.addNamed, Listing.addVariable]

theorem declare_pays
    {name : String}
    {type : Ty}
    {initial : Option Expr}
    (lowered : declare line name type initial before = .ok (done, after)) :
    before.Pays after := by
  cases isModule : before.listing.scopes.isModule before.scope with
  | true => exact declare_module_pays isModule lowered
  | false => exact declare_local_pays isModule lowered

theorem assign_pays
    {name : String}
    {index : Option Expr}
    {expr : Expr}
    (lowered : assign line name index expr before = .ok (done, after)) :
    before.Pays after where
  extends_ := (assign_proceeds lowered).extends_
  balanced numbered waiting start := by
    obtain ⟨target, wanted, selected, middle, id, between, _, indexed, exprLowered, _, stored⟩ :=
      assign_ok lowered
    have isSelected : middle.listing.Balanced waiting ∧ middle.listing.Numbered := by
      rcases indexed with ⟨_, _, _, _, rfl⟩ | ⟨position, _, accessed, _⟩
      · exact ⟨start, numbered⟩
      · obtain ⟨_, reached, _, positionLowered, elementAccessed⟩ := elementOf_ok accessed
        have grown := (elementOf_computes accessed).extends_
        exact ⟨element_balanced elementAccessed (expression_balanced positionLowered start),
          grown.numbered numbered⟩
    have asked := expression_balanced exprLowered isSelected.1
    have isNumbered := (expression_computes exprLowered).extends_.numbered isSelected.2
    rcases stored with ⟨v, found, rfl⟩ | ⟨missing, rfl⟩
    · refine balanced_taken (fun call same => nomatch same) (fun name known => ?_) asked
      refine Listing.mem_nodeTargets_iff.mpr (.inr (.inr (.inl ⟨_, _, _, _, _, rfl, ?_⟩)))
      rw [bound_of_awaited isNumbered found known]
      exact Listing.mem_valueTargets_iff.mpr
        ⟨id, rfl, (extends_appended between _).resultOf? known⟩
    · rwa [awaited_nil fun v _ _ found => by simp [missing] at found, List.append_nil] at asked

theorem leave_pays
    {result : Option Expr}
    (lowered : leave line result before = .ok (done, after)) :
    before.Pays after where
  extends_ := (leave_proceeds lowered).extends_
  balanced numbered waiting start := by
    obtain ⟨_, body, id, between, _, _, given, rfl⟩ := leave_ok lowered
    refine balanced_appended ?_ fun call same => nomatch same
    rcases given with ⟨_, rfl, rfl⟩ | ⟨expr, _, exprLowered, _⟩
    · exact balanced_appended start fun call same => nomatch same
    · refine balanced_taken (fun call same => nomatch same) (fun name known => ?_)
        (expression_balanced exprLowered start)
      refine Listing.mem_nodeTargets_iff.mpr (.inr (.inr (.inr ⟨id, ?_,
        (extends_appended between _).resultOf? known⟩)))
      have positive : id ≠ 0 := by
        rintro rfl
        simp [Listing.resultOf?, Listing.lookup?] at known
      simp [Node.operands, positive]

theorem callStatement_pays
    {name : String}
    {builtin : Bool}
    {given : List Expr}
    (lowered : callStatement line name builtin given before = .ok (done, after)) :
    before.Pays after where
  extends_ := (callStatement_computes lowered).extends_
  balanced _ waiting start := List.append_nil waiting ▸ evaluated_balanced.callStatement lowered start

/-- Every statement leaves no call waiting. -/
theorem composed_pays :
    Composed (fun _ => True) (fun _ => True) fun _ => Pays where
  refl := .refl
  trans := .trans
  numbered := plainly_pays.numbered
  labelled := plainly_pays.labelled
  jumped _ _ := plainly_pays.plain _ rfl
  condition _ lowered := plainly_pays.condition
    (fun _ compared => (comparison_pays compared).trans (.appended _ _ nofun))
    (fun _ _ _ _ _ => trivial) lowered
  declare _ := declare_pays
  assign _ := assign_pays
  call _ := callStatement_pays
  leave _ := leave_pays
  inScope := plainly_pays.inScope

theorem functionBody_pays
    {function : Signature}
    {body : List Stmt}
    (known : before.listing.Parameters function)
    (lowered : functionBody function body before = .ok ((), after)) :
    before.Pays after := by
  obtain ⟨finished, inside, rfl⟩ := plainly_pays.functionBody known
    (.appended _ (.entry function) nofun) composed_pays.statements lowered
  exact ⟨inside.extends_, inside.balanced⟩

theorem Laid.pays
    {parts : List FunctionSection}
    (laid : Laid parts before after) :
    before.Pays after := by
  induction laid with
  | nil state => exact .refl state
  | cons known parameters bodyLowered _ inductionHypothesis =>
      exact (functionBody_pays parameters bodyLowered).trans inductionHypothesis

theorem moduleVariables_pays
    {stmts : List Stmt}
    (lowered : moduleVariables stmts before = .ok (done, after)) :
    before.Pays after := by
  induction stmts generalizing before with
  | nil =>
      rw [moduleVariables] at lowered
      obtain ⟨-, rfl⟩ := pure_ok_iff.mp lowered
      exact .refl _
  | cons first rest inductionHypothesis =>
      cases first with
      | declare line name type initial =>
          rw [moduleVariables] at lowered
          obtain ⟨_, between, declared, others⟩ := bind_ok_iff.mp lowered
          exact (declare_pays declared).trans (inductionHypothesis others)
      | _ => exact inductionHypothesis lowered

/-- A function that is declared has not been called. -/
theorem declareFunction_functions
    {name : String}
    {params : List Param}
    {result : Ty}
    (lowered : declareFunction line name params result before = .ok (done, after)) :
    ∃ function : Function,
      function.calls = 0 ∧
        after.listing.functions = before.listing.functions ++ [function] := by
  obtain ⟨_, _, created, _, _, rfl⟩ := declareFunction_steps lowered
  exact ⟨_, rfl, congrArg (· ++ [_]) (parameters_ok created).2.1⟩

theorem declareFunction_pays
    {name : String}
    {params : List Param}
    {result : Ty}
    (lowered : declareFunction line name params result before = .ok (done, after)) :
    before.Pays after := by
  obtain ⟨_, _, _, _, _, declares, -⟩ := declareFunction_ok lowered
  obtain ⟨function, uncalled, functions⟩ := declareFunction_functions lowered
  refine ⟨declares.extends_, fun _ waiting start => start.grown declares.extends_ (fun other => ?_)
    ?_ [] ?_ fun call member => nomatch member⟩
  · rw [Listing.calls, Listing.calls, Listing.function?, Listing.function?, functions,
      List.find?_append]
    cases before.listing.functions.find? fun called => called.signature.name == other with
    | some found => rfl
    | none =>
        rw [Option.none_or, List.find?_singleton]
        split <;> simp [uncalled]
  · intro id v isNew found called call storage
    obtain ⟨w, _, _, isFixed, isParameter, _⟩ := declares.added id v isNew found
    cases found.symm.trans isFixed
    rw [storage] at isParameter
    cases isParameter
  · rw [List.append_nil]
    exact congrArg Array.toList (congrArg Listing.Frozen.nodes declares.frozen)

theorem moduleFunctions_pays
    {stmts : List Stmt}
    (lowered : moduleFunctions stmts before = .ok (done, after)) :
    before.Pays after := by
  induction stmts generalizing before with
  | nil =>
      rw [moduleFunctions] at lowered
      obtain ⟨-, rfl⟩ := pure_ok_iff.mp lowered
      exact .refl _
  | cons first rest inductionHypothesis =>
      cases first with
      | function line name params result bodyLine body =>
          rw [moduleFunctions] at lowered
          obtain ⟨_, between, declared, others⟩ := bind_ok_iff.mp lowered
          exact (declareFunction_pays declared).trans (inductionHypothesis others)
      | _ => exact inductionHypothesis lowered

theorem balanced_start
    (file : String) :
    (start file).listing.Balanced [] := by
  have nothing : ∀ id, (start file).listing.fixed? id = none := by
    intro id
    unfold Listing.fixed? Listing.lookup?
    split <;> rfl
  refine ⟨?_, ?_, ?_, fun _ counted => absurd counted (Nat.lt_irrefl 0)⟩
  · intro id v function call found
    rw [nothing] at found
    cases found
  · intro id v function call found
    rw [nothing] at found
    cases found
  · intro node member
    simp [start, Listing.empty] at member

/-- In a lowered program every call that is counted is made, and every one that is made is counted. -/
theorem lower_balanced
    {program : Program}
    {listing : Listing}
    (lowered : program.lower = .ok listing) :
    listing.Balanced [] := by
  obtain ⟨declared, final, ready, bodies, rfl⟩ := lower_ready lowered
  obtain ⟨parts, laid, _⟩ := bodies.laid ready.functions
  obtain ⟨globals, globalsLowered, functionsLowered⟩ := ready.reached
  have declares := (moduleVariables_pays globalsLowered).trans
    (moduleFunctions_pays functionsLowered)
  have isNumbered : (start program.file).listing.Numbered :=
    declares.extends_.numbered_of ready.numbered
  exact (declares.trans laid.pays).balanced isNumbered [] (balanced_start program.file)

end Lower

end IlsCompiler
