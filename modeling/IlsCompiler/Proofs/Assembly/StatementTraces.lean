import IlsCompiler.Proofs.Assembly.ExpressionTraces

namespace IlsCompiler

/-!
# The calls that statements make

The code of a function body makes the calls of its parts, one part behind the other.
-/

namespace Listing

variable
    {listing : Listing}
    {made numbers : List Nat}
    {routines : List String}

/-- An element that can be asked for in silence has an index that can be. -/
theorem Quiet.index
    {selected array index : Nat}
    {v : Variable}
    (quiet : listing.Quiet made selected)
    (found : listing.fixed? selected = some v)
    (storage : v.storage = .element array index) :
    index < selected ∧ listing.Quiet made index := by
  cases quiet with
  | plain known isPlain =>
      cases known.symm.trans found
      rw [storage] at isPlain
      cases isPlain
  | constant known other _ =>
      cases known.symm.trans found
      cases other.symm.trans storage
  | copy known other _ _ _ =>
      cases known.symm.trans found
      cases other.symm.trans storage
  | element known other less ready =>
      cases known.symm.trans found
      cases other.symm.trans storage
      exact ⟨less, ready⟩
  | made known other _ =>
      cases known.symm.trans found
      cases other.symm.trans storage

/-- What is stored for a variable asks for it, unless it is a constant. -/
theorem Asked.bound
    (numbered : listing.Numbered)
    {id limit : Nat}
    {v : Variable}
    (asked : listing.Asked made id numbers routines)
    (found : listing.fixed? id = some v)
    (below : id ≤ limit) :
    listing.AskedValue made limit (Lower.bound v) numbers routines := by
  have constant : ∀ text,
      (∀ function call, v.storage ≠ .result function call) →
        listing.AskedValue made limit (.literal text) numbers routines := by
    intro text noResult
    obtain ⟨rfl, rfl, -⟩ := asked.quiet_of_no_result fun w function call known => by
      cases known.symm.trans found
      exact noResult function call
    exact .literal text
  have number : v.id = id := numbered id v found
  unfold Lower.bound
  cases storage : v.storage with
  | literal => exact constant _ (by simp [storage])
  | array => exact constant _ (by simp [storage])
  | _ =>
      simp only [number]
      exact .reference below asked

theorem Asked.boundIn
    (numbered : listing.Numbered)
    {id limit : Nat}
    {state : LoweringState}
    (asked : listing.Asked made id numbers routines)
    (grown : state.listing.Extends listing)
    (below : id ≤ limit) :
    listing.AskedValue made limit (Lower.boundIn state id) numbers routines := by
  unfold Lower.boundIn
  cases found : state.listing.fixed? id with
  | some v => exact asked.bound numbered (grown.fixed?_of found) below
  | none => exact .reference below asked

end Listing

variable
    {early late : List String}

namespace LoweringState

open FunctionCode

/-- Code follows a step of lowering: it calls the given routines and agrees with the state. -/
structure Follows (after : LoweringState) (routines : List String)
    (code final : FunctionCode) : Prop where
  becomes : ∃ numbers, Becomes after.listing.vars.size numbers routines code final
  agrees : after.Agrees final

namespace Follows

variable
    {before middle after : LoweringState}
    {code between final : FunctionCode}

theorem refl
    (agrees : before.Agrees code) :
    before.Follows [] code code :=
  ⟨⟨[], .refl _ _⟩, agrees⟩

theorem trans
    (earlier : middle.Follows early code between)
    (grown : middle.listing.Extends after.listing)
    (later : after.Follows late between final) :
    after.Follows (early ++ late) code final := by
  obtain ⟨first, firstBecomes⟩ := earlier.becomes
  obtain ⟨second, secondBecomes⟩ := later.becomes
  exact ⟨⟨first ++ second, (firstBecomes.mono grown.size).trans secondBecomes⟩, later.agrees⟩

/-- Code that makes no call follows a step that numbers none. -/
theorem of_silent
    (agrees : before.Agrees code)
    (grown : before.listing.Extends after.listing)
    (silent : Becomes after.listing.vars.size [] [] code final) :
    after.Follows [] code final :=
  ⟨⟨[], silent⟩, agrees.after grown silent (by simp)⟩

end Follows

end LoweringState

variable
    {whenTrue whenFalse : String}
    {test : Option Condition}
    {routines : List String}
    {falseFollows : Bool}

namespace Lower

open LoweringState FunctionCode

variable
    {listing : Listing}
    {before after : LoweringState}
    {code final : FunctionCode}
    {line : Nat}
    {done : Unit}
    {expr : Expr}
    {middle : LoweringState}
    {between : FunctionCode}

/-- The code that uses a value follows the code of the expression. -/
theorem Traced.follows
    {id : Nat}
    (traced : Traced listing expr before middle code between id)
    (agrees : before.Agrees code)
    (first : before.listing.Extends middle.listing)
    (second : middle.listing.Extends after.listing)
    (asks : Becomes after.listing.vars.size
      ((expr.pending before.listing.callCount).map Prod.snd)
      ((expr.pending before.listing.callCount).map Prod.fst) between final) :
    after.Follows ((expr.made before.listing.callCount).map Prod.fst) code final := by
  have whole := (traced.becomes.mono second.size).trans asks
  rw [← List.map_append, ← List.map_append] at whole
  refine ⟨⟨_, whole⟩, agrees.after (first.trans second) whole ?_⟩
  intro number member
  obtain ⟨call, isMade, rfl⟩ := List.mem_map.mp member
  have place := (Expr.place_of_mem_made isMade).2
  rw [← traced.count] at place
  exact Nat.lt_of_lt_of_le place second.calls

/-- An expression with a value prints nothing. -/
theorem called_of_value
    {id : VarId}
    (lowered : expression expr before = .ok (some id, after))
    (start : Nat) :
    (Part.expression expr).called = (expr.made start).map Prod.fst := by
  refine Part.called_eq start ?_
  cases expr with
  | call line name builtin arguments =>
      cases builtin with
      | true => cases (expression_builtin_ok lowered).1
      | false => rfl
  | _ => rfl

variable
    {name : String}

theorem declare_traced
    (numbered : listing.Numbered)
    {type : Ty}
    {initial : Option Expr}
    (inside : Inside before.listing.scopes before.scope)
    (lowered : declare line name type initial before = .ok (done, after))
    (grown : after.listing.Extends listing)
    (emits : listing.Emits before.listing after.listing code final)
    (agrees : before.Agrees code) :
    after.Follows ((initial.toList.map Part.expression).flatMap Part.called) code final := by
  obtain ⟨_, stored, between, initialized, _, rfl⟩ := declare_local_ok inside.isModule lowered
  have first := (initializer_proceeds initialized).extends_
  have second := (proceeds_withLocal between name type stored line).extends_
  obtain ⟨middle, valueEmits, declareEmits⟩ := emits.split first second
  obtain ⟨v, found, storage, valued, _⟩ := fixed?_withLocal between name type stored line
  have run := declareEmits.declare_of_push (nodes_withLocal between name type stored line)
  rcases initializer_ok initialized with
    ⟨rfl, rfl, rfl⟩ | ⟨expr, id, rfl, exprLowered, _, rfl⟩
  · have nodes : (defaulted before type).listing.nodes = before.listing.nodes := by
      unfold defaulted
      split <;> rfl
    cases valueEmits.eq_of_same_nodes nodes
    refine .of_silent agrees (first.trans second) ?_
    refine Emit.declare_local numbered (grown.fixed?_of found) storage ?_ rfl run
    rw [valued]
    exact .literal _
  · have traced := expression_traced numbered exprLowered (second.trans grown) valueEmits agrees
    have asked := traced.asked.boundIn numbered (second.trans grown)
      (Nat.le_trans traced.below second.size)
    have follows := traced.follows agrees first second
      (Emit.declare_local numbered (grown.fixed?_of found) storage (valued ▸ asked) rfl run)
    simpa [called_of_value exprLowered before.listing.callCount] using follows

theorem assign_traced
    (numbered : listing.Numbered)
    {index : Option Expr}
    (lowered : assign line name index expr before = .ok (done, after))
    (grown : after.listing.Extends listing)
    (emits : listing.Emits before.listing after.listing code final)
    (agrees : before.Agrees code) :
    after.Follows ((Stmt.assign line name index expr).parts.flatMap Part.called) code final := by
  obtain ⟨target, _, selected, middle, id, between, _, selects, exprLowered, _, stores⟩ :=
    assign_ok lowered
  have exprGrows := (expression_computes exprLowered).extends_
  -- A value that was lowered is a variable, so there is a node that stores it.
  have stored : ∃ v, between.listing.fixed? id = some v ∧
      after = between.appended (.assign target.id (bound v) (boundType v) selected line) := by
    rcases stores with stored | ⟨absent, rfl⟩
    · exact stored
    · obtain ⟨v, found⟩ := expression_found (grown.numbered_of numbered) exprLowered
      rw [absent] at found
      cases found
  obtain ⟨v, found, rfl⟩ := stored
  have storeGrows := extends_appended between
    (.assign target.id (bound v) (boundType v) selected line)
  rcases selects with ⟨rfl, _, _, rfl, rfl⟩ | ⟨position, rfl, accessed, _⟩
  · obtain ⟨one, exprEmits, storeRun⟩ := emits.split_appended exprGrows
    have traced := expression_traced numbered exprLowered (storeGrows.trans grown) exprEmits
      agrees
    have follows := traced.follows agrees exprGrows storeGrows
      (Emit.assign_asked numbered
        (traced.asked.bound numbered (grown.fixed?_of (storeGrows.fixed?_of found))
          (Nat.le_trans traced.below storeGrows.size))
        (by
          intro w array index absent
          simp [Listing.fixed?, Listing.lookup?] at absent)
        rfl (Emit.atLine_ok_iff.mp storeRun))
    simpa [Stmt.parts, called_of_value exprLowered middle.listing.callCount] using follows
  · obtain ⟨place, middlePosition, _, positionLowered, selectedLowered⟩ := elementOf_ok accessed
    have positionGrows := (expression_computes positionLowered).extends_
    have selectedGrows := (element_computes selectedLowered).extends_
    have valueGrows := exprGrows.trans storeGrows
    obtain ⟨one, positionEmits, emits⟩ :=
      emits.split positionGrows (selectedGrows.trans valueGrows)
    obtain ⟨two, selectedEmits, emits⟩ := emits.split selectedGrows valueGrows
    obtain ⟨three, exprEmits, storeRun⟩ := emits.split_appended exprGrows
    have positionTraced := expression_traced numbered positionLowered
      (selectedGrows.trans (valueGrows.trans grown)) positionEmits agrees
    obtain ⟨selectedBecomes, selectedQuiet, selectedBelow, selectedCount⟩ :=
      element_traced numbered selectedLowered (valueGrows.trans grown) selectedEmits
        (positionTraced.agrees agrees positionGrows) positionTraced.below positionTraced.asked
    have selectedFollows := positionTraced.follows agrees positionGrows selectedGrows
      selectedBecomes
    have traced := expression_traced numbered exprLowered (storeGrows.trans grown) exprEmits
      selectedFollows.agrees
    have asks := Emit.assign_asked numbered
      (traced.asked.bound numbered (grown.fixed?_of (storeGrows.fixed?_of found))
        (Nat.le_trans traced.below storeGrows.size))
      (by
        intro w array index known storage
        have ready := selectedQuiet.index known storage
        refine ⟨?_, ready.2.mono ?_⟩
        · exact Nat.le_trans (Nat.le_of_lt ready.1)
            (Nat.le_trans selectedBelow valueGrows.size)
        · rw [traced.becomes.calls]
          exact fun number member => List.mem_append_left _ member)
      rfl (Emit.atLine_ok_iff.mp storeRun)
    have follows := selectedFollows.trans valueGrows
      (traced.follows selectedFollows.agrees exprGrows storeGrows asks)
    have count : middle.listing.callCount =
        before.listing.callCount + position.calls.length := by
      rw [selectedCount, positionTraced.count]
    rw [count, ← List.map_append] at follows
    have called : (Part.store position expr).called = _ :=
      Part.called_eq before.listing.callCount rfl
    simpa only [Stmt.parts, List.flatMap_cons, List.flatMap_nil, List.append_nil, called,
      Part.made] using follows

theorem leave_traced
    (numbered : listing.Numbered)
    {result : Option Expr}
    (lowered : leave line result before = .ok (done, after))
    (grown : after.listing.Extends listing)
    (emits : listing.Emits before.listing after.listing code final)
    (agrees : before.Agrees code) :
    after.Follows ((result.toList.map Part.expression).flatMap Part.called) code final := by
  obtain ⟨_, body, id, between, _, _, values, rfl⟩ := leave_ok lowered
  have leaveGrows := extends_appended between (.leave id line)
  have jumpGrows := extends_appended (between.appended (.leave id line))
    (.jump body.endLabel none)
  have valueGrows : before.listing.Extends between.listing := by
    rcases values with ⟨_, _, rfl⟩ | ⟨_, _, exprLowered, _⟩
    · exact .refl _
    · exact (expression_computes exprLowered).extends_
  obtain ⟨two, emits, jumpRun⟩ := emits.split_appended (valueGrows.trans leaveGrows)
  obtain ⟨one, valueEmits, leaveRun⟩ := emits.split_appended valueGrows
  have left := Emit.atLine_ok_iff.mp leaveRun
  have jumps : Becomes between.listing.vars.size [] [] two final :=
    Emit.silent_ins rfl jumpRun
  rcases values with ⟨rfl, rfl, rfl⟩ | ⟨expr, rfl, exprLowered, _⟩
  · cases valueEmits.eq_of_same_nodes rfl
    have nothing : listing.fixed? 0 = none := by simp [Listing.fixed?, Listing.lookup?]
    refine .of_silent agrees (leaveGrows.trans jumpGrows) ?_
    simpa using (Emit.leave_asked numbered (.inl ⟨nothing, rfl, rfl⟩) rfl left).after_silent jumps
  · have traced := expression_traced numbered exprLowered
      (leaveGrows.trans (jumpGrows.trans grown)) valueEmits agrees
    have asks := Emit.leave_asked numbered (.inr ⟨traced.below, traced.asked⟩) rfl left
    have follows := traced.follows agrees valueGrows (leaveGrows.trans jumpGrows)
      (by simpa using asks.before_silent jumps)
    simpa [called_of_value exprLowered before.listing.callCount] using follows

/-- The code of a call that stands as a node follows the code of its arguments. -/
theorem call_follows
    (numbered : listing.Numbered)
    {call : Call}
    (given : middle.Follows routines code between)
    (grown : middle.listing.Extends after.listing)
    (number : call.id = middle.listing.callCount)
    (isUser : call.builtin = false)
    (counted : middle.listing.callCount < after.listing.callCount)
    (ready : ∀ argument ∈ call.arguments,
      argument ≤ middle.listing.vars.size ∧ listing.Quiet between.calls argument)
    (run : Emit.node listing (.call call) between = .ok ((), final)) :
    after.Follows (routines ++ [call.name]) code final := by
  have called : Emit.call listing call between = .ok ((), final) := Emit.atLine_ok_iff.mp run
  unfold Emit.call at called
  simp only [isUser, Bool.false_eq_true, ↓reduceIte] at called
  have fresh : call.id ∉ between.calls := by
    intro known
    rw [number] at known
    exact Nat.lt_irrefl _ (given.agrees.calls _ known)
  have makes : Becomes after.listing.vars.size [call.id] [call.name] between final :=
    Emit.userCall_made numbered
      (fun argument member =>
        ⟨Nat.le_trans (ready argument member).1 grown.size, (ready argument member).2⟩)
      fresh rfl called
  refine given.trans grown ⟨⟨_, makes⟩, given.agrees.after grown makes ?_⟩
  intro other member
  rw [List.mem_singleton.mp member, number]
  exact counted

theorem callStatement_traced
    (numbered : listing.Numbered)
    {builtin : Bool}
    {given : List Expr}
    (lowered : callStatement line name builtin given before = .ok (done, after))
    (grown : after.listing.Extends listing)
    (emits : listing.Emits before.listing after.listing code final)
    (agrees : before.Agrees code) :
    after.Follows (Part.called (.expression (.call line name builtin given))) code final := by
  -- The arguments come first; what follows them is one node for the call.
  have arguments_ : ∀ {ids : List VarId} {middle : LoweringState} {between : FunctionCode},
      arguments name line given before = .ok (ids, middle) →
      middle.listing.Extends listing →
      listing.Emits before.listing middle.listing code between →
      middle.Follows ((forcedIn before.listing.callCount given).map Prod.fst) code between ∧
        ∀ id ∈ ids, id ≤ middle.listing.vars.size ∧ listing.Quiet between.calls id := by
    intro ids middle between passed givenGrows givenEmits
    obtain ⟨becomes, ready, _, givenAgrees⟩ := arguments_traced numbered
      (fun _ _ _ _ _ _ _ partLowered => expression_traced numbered partLowered) passed
      givenGrows givenEmits agrees
    exact ⟨⟨⟨_, becomes⟩, givenAgrees⟩, ready⟩
  cases builtin with
  | true =>
      obtain ⟨known, ids, middle, found, _, passed, invoked⟩ := callStatement_builtin_ok lowered
      have givenGrows := (arguments_computes passed).extends_
      have callGrows := (invokeBuiltin_computes invoked).extends_
      obtain ⟨between, givenEmits, callEmits⟩ := emits.split givenGrows callGrows
      obtain ⟨follows, ready⟩ := arguments_ passed (callGrows.trans grown) givenEmits
      obtain ⟨_, rfl⟩ := invokeBuiltin_ok invoked
      have run : Emit.node listing (.call (middle.nextBuiltinCall known ids line)) between =
          .ok ((), final) := callEmits.node_of_push (nodes_appended _ _)
      have made : Emit.builtinCall listing (middle.nextBuiltinCall known ids line) between =
          .ok ((), final) := Emit.atLine_ok_iff.mp run
      have sameName : known.name = name := by simpa using List.find?_some found
      have again : Builtin.ofName? known.name = some known := by rw [sameName, found]
      have prints : Becomes middle.listing.vars.size [] known.routines between final :=
        Emit.builtinCall_quiet numbered again ready rfl made
      have called : (Part.expression (.call line name true given)).called =
          (forcedIn before.listing.callCount given).map Prod.fst ++ known.routines := by
        rw [Part.called, Part.names_made 0 before.listing.callCount]
        simp [Part.made, Expr.made, Expr.forced, Expr.pending, Part.printed, found]
      rw [called]
      refine follows.trans callGrows ⟨⟨[], prints.mono callGrows.size⟩, ?_⟩
      exact follows.agrees.after callGrows (prints.mono callGrows.size) (by simp)
  | false =>
      obtain ⟨function, ids, middle, result, known, _, passed, invoked⟩ :=
        callStatement_function_ok lowered
      have named := Listing.name_of_signature? known
      have givenGrows := (arguments_computes passed).extends_
      have callGrows := (invoke_computes invoked).extends_
      obtain ⟨between, givenEmits, callEmits⟩ := emits.split givenGrows callGrows
      obtain ⟨follows, ready⟩ := arguments_ passed (callGrows.trans grown) givenEmits
      have called : (Part.expression (.call line name false given)).called =
          (forcedIn before.listing.callCount given).map Prod.fst ++ [function.name] := by
        rw [named, Part.called_eq before.listing.callCount rfl]
        simp [Part.made, Expr.made, Expr.forced, Expr.pending]
      rw [called]
      have finish : ∀ {last : LoweringState},
          after = last.appended (.call (middle.nextCall function ids line)) →
          last.listing.nodes = middle.listing.nodes →
          last.listing.callCount = middle.listing.callCount + 1 →
          after.Follows ((forcedIn before.listing.callCount given).map Prod.fst ++
            [function.name]) code final := by
        intro last isLast sameNodes count
        have counted : middle.listing.callCount < after.listing.callCount := by
          rw [isLast, callCount_appended, count]
          exact Nat.lt_succ_self _
        have pushed : after.listing.nodes =
            middle.listing.nodes.push (.call (middle.nextCall function ids line)) := by
          rw [isLast, nodes_appended, sameNodes]
        exact call_follows numbered follows callGrows rfl rfl counted ready
          (callEmits.node_of_push pushed)
      rcases invoke_ok invoked with ⟨_, _, same⟩ | ⟨_, _, same⟩
      · have frozen := (extends_marks (middle.counted function).listing ids).2.1
        exact finish same (congrArg Listing.Frozen.nodes frozen)
          (congrArg Listing.Frozen.callCount frozen)
      · exact finish same rfl rfl

/-- Both sides of a term are worked on before the call that the left one waits for. -/
theorem comparison_traced
    (numbered : listing.Numbered)
    {term : Comparison}
    {left right : VarId}
    {test : CmpOp}
    (lowered : comparison term before = .ok ((left, right, test), after))
    (grown : after.listing.Extends listing)
    (emits : listing.Emits before.listing after.listing code final)
    (agrees : before.Agrees code) :
    after.Follows (Part.called (.comparison term.left term.second)) code final ∧
      (listing.Quiet final.calls left ∧ left ≤ after.listing.vars.size) ∧
      (listing.Quiet final.calls right ∧ right ≤ after.listing.vars.size) := by
  obtain ⟨leftValue, middle, rightValue, between, leftOperand, copied, rightOperand, _,
    leftLowered, rightLowered, _, _, _, leftCopied, rightCopied, same⟩ := comparison_ok lowered
  cases same
  have leftGrows := (expression_computes leftLowered).extends_
  have rightGrows := (expression_computes rightLowered).extends_
  have copyGrows := ((materialize_computes leftCopied).trans
    (materialize_computes rightCopied)).extends_
  obtain ⟨one, leftEmits, emits⟩ := emits.split leftGrows (rightGrows.trans copyGrows)
  obtain ⟨two, rightEmits, copyEmits⟩ := emits.split rightGrows copyGrows
  have rightWhole := copyGrows.trans grown
  have leftTraced := expression_traced numbered leftLowered (rightGrows.trans rightWhole)
    leftEmits agrees
  have leftAgrees := leftTraced.agrees agrees leftGrows
  have rightTraced := expression_traced numbered rightLowered rightWhole rightEmits leftAgrees
  obtain ⟨forced, leftAsked, rightAsked, counted, apart, _⟩ :=
    leftTraced.beside rightTraced rightGrows
  obtain ⟨copies, leftReady, rightReady, copyAgrees, _⟩ :=
    copies_traced numbered leftCopied rightCopied grown copyEmits
      (rightTraced.agrees leftAgrees rightGrows)
      (Nat.le_trans leftTraced.below rightGrows.size) rightTraced.below leftAsked rightAsked
      counted apart
  have whole := (forced.mono copyGrows.size).trans copies
  have called : (Part.comparison term.left term.second).called = _ :=
    Part.called_eq before.listing.callCount rfl
  simp only [Part.made, Expr.madeBeside, List.append_assoc, List.map_append] at called
  simp only [List.map_append, List.append_assoc] at whole
  rw [called]
  exact ⟨⟨⟨_, whole⟩, copyAgrees⟩, leftReady, rightReady⟩

theorem conditionTerms_traced
    (numbered : listing.Numbered)
    {terms : List Comparison}
    {joins : List Logic}
    (lowered : conditionTerms whenTrue whenFalse terms joins before = .ok (done, after))
    (grown : after.listing.Extends listing)
    (emits : listing.Emits before.listing after.listing code final)
    (agrees : before.Agrees code) :
    after.Follows
      ((terms.map fun term => Part.comparison term.left term.second).flatMap Part.called)
      code final := by
  induction terms generalizing before code joins with
  | nil =>
      cases conditionTerms_nil_ok lowered
      cases emits.eq_of_same_nodes rfl
      exact .refl agrees
  | cons term rest inductionHypothesis =>
      obtain ⟨left, right, test, between, sidesLowered, restLowered⟩ :=
        conditionTerms_cons_ok lowered
      let tested := between.appended (.compare left right term.line)
      let settled := (tested.destroyed left).destroyed right
      have sidesGrow := (comparison_computes sidesLowered).extends_
      have testGrows : between.listing.Extends tested.listing := extends_appended between _
      have leftGrows := (computes_destroyed tested left).extends_
      have rightGrows : (tested.destroyed left).listing.Extends settled.listing :=
        (computes_destroyed (tested.destroyed left) right).extends_
      have jumpGrows := extends_appended settled (termJump whenTrue whenFalse test rest joins)
      have restGrows := (conditionTerms_proceeds restLowered).extends_
      have tailGrows := jumpGrows.trans restGrows
      obtain ⟨one, sidesEmit, emits⟩ := emits.split sidesGrow
        (testGrows.trans (leftGrows.trans (rightGrows.trans tailGrows)))
      obtain ⟨two, testEmits, emits⟩ := emits.split testGrows
        (leftGrows.trans (rightGrows.trans tailGrows))
      obtain ⟨three, leftEmits, emits⟩ := emits.split leftGrows (rightGrows.trans tailGrows)
      obtain ⟨four, rightEmits, emits⟩ := emits.split rightGrows tailGrows
      obtain ⟨five, jumpEmits, restEmits⟩ := emits.split jumpGrows restGrows
      obtain ⟨follows, leftReady, rightReady⟩ := comparison_traced numbered sidesLowered
        (testGrows.trans (leftGrows.trans (rightGrows.trans (tailGrows.trans grown)))) sidesEmit
        agrees
      have tests : Becomes between.listing.vars.size [] [] one two :=
        ((Emit.asking_lawful numbered).compare leftReady.symm rightReady.symm).1 (List.Subset.refl _)
          (Emit.atLine_ok_iff.mp (testEmits.node_of_push (nodes_appended _ _)))
      have jumps : Becomes between.listing.vars.size [] [] four five := by
        have run := jumpEmits.node_of_push (nodes_appended _ _)
        unfold termJump at run
        split at run <;> exact Emit.silent_ins rfl run
      have silent := tests.after_silent ((destroyed_traced leftEmits).after_silent
        ((destroyed_traced rightEmits).after_silent jumps))
      have termGrows := testGrows.trans (leftGrows.trans (rightGrows.trans jumpGrows))
      have jumped := follows.trans termGrows
        (.of_silent follows.agrees termGrows (silent.mono termGrows.size))
      have others := inductionHypothesis restLowered restEmits jumped.agrees
      simpa using jumped.trans restGrows others

theorem condition_traced
    (numbered : listing.Numbered)
    (lowered : condition test whenTrue whenFalse falseFollows before = .ok (done, after))
    (grown : after.listing.Extends listing)
    (emits : listing.Emits before.listing after.listing code final)
    (agrees : before.Agrees code) :
    after.Follows ((Condition.parts test).flatMap Part.called) code final := by
  obtain ⟨chain, between, rfl, _, termsLowered, rfl⟩ := condition_ok lowered
  have termsGrow := (conditionTerms_proceeds termsLowered).extends_
  cases falseFollows with
  | true =>
      exact conditionTerms_traced numbered termsLowered grown emits agrees
  | false =>
      simp only [Bool.false_eq_true, ↓reduceIte] at grown emits ⊢
      have jumpGrows := extends_appended between (.jump whenFalse none)
      obtain ⟨one, termsEmit, jumpRun⟩ := emits.split_appended termsGrow
      have follows := conditionTerms_traced numbered termsLowered (jumpGrows.trans grown)
        termsEmit agrees
      have jumped := follows.trans jumpGrows
        (.of_silent follows.agrees jumpGrows (Emit.silent_ins rfl jumpRun))
      simpa [Condition.parts] using jumped

end Lower

/--
From one state of lowering to a later one: whatever code is made for the nodes in
between calls the given routines.
-/
structure Listing.Runs (listing : Listing) (before after : LoweringState)
    (routines : List String) : Prop where
  grown : before.listing.Extends after.listing
  follows : ∀ {code final : FunctionCode},
    listing.Emits before.listing after.listing code final → before.Agrees code →
      after.Follows routines code final

namespace Listing.Runs

open LoweringState FunctionCode

variable
    {listing : Listing}
    {before middle after : LoweringState}

theorem trans
    (first : listing.Runs before middle early)
    (second : listing.Runs middle after late) :
    listing.Runs before after (early ++ late) := by
  refine ⟨first.grown.trans second.grown, ?_⟩
  intro code final emits agrees
  obtain ⟨between, earlyEmits, lateEmits⟩ := emits.split first.grown second.grown
  have follows := first.follows earlyEmits agrees
  exact follows.trans second.grown (second.follows lateEmits follows.agrees)

/-- A step that makes no call can be left out behind. -/
theorem before_silent
    (first : listing.Runs before middle routines)
    (second : listing.Runs middle after []) :
    listing.Runs before after routines := by
  simpa using first.trans second

theorem of_same_nodes
    (grown : before.listing.Extends after.listing)
    (same : after.listing.nodes = before.listing.nodes) :
    listing.Runs before after [] := by
  refine ⟨grown, ?_⟩
  intro code final emits agrees
  cases emits.eq_of_same_nodes same
  exact .of_silent agrees grown (.refl _ _)

/-- A node whose code makes no call. -/
theorem of_push
    {node : Node}
    (grown : before.listing.Extends after.listing)
    (pushed : after.listing.nodes = before.listing.nodes.push node)
    (silent : ∀ bound, Emit.Silent bound (Emit.node listing node)) :
    listing.Runs before after [] := by
  refine ⟨grown, ?_⟩
  intro code final emits agrees
  exact .of_silent agrees grown (silent _ (emits.node_of_push pushed))

theorem labelled
    (state : LoweringState)
    (name : String) :
    listing.Runs state (state.labelled name) [] := by
  refine .of_push (proceeds_labelled state name).extends_ (by simp [LoweringState.labelled]; rfl) ?_
  intro bound before result after run
  cases Stateful.modify_ok_iff.mp run
  exact ⟨by simp, by simp, fun _ member => .inl member, rfl, rfl,
    .label _ _, fun sound => sound⟩

theorem jumped
    (state : LoweringState)
    (target : String)
    (condition : Option CmpOp) :
    listing.Runs state (state.appended (.jump target condition)) [] :=
  .of_push (extends_appended state _) (nodes_appended state _) fun _ => Emit.silent_ins rfl

theorem skipped
    (state : LoweringState)
    (endLabel : String)
    (next : Branch) :
    listing.Runs state (Lower.skipped state endLabel next) [] := by
  unfold Lower.skipped
  split
  · exact jumped state endLabel none
  · exact .of_same_nodes (.refl _) rfl

theorem entered
    (state : LoweringState)
    (kind : Scope.Kind)
    (exitLabel : String) :
    listing.Runs state (state.entered kind exitLabel) [] := by
  have opens : listing.Runs state (state.opened kind exitLabel) [] :=
    .of_same_nodes (grows_opened state kind exitLabel).extends_ rfl
  refine (opens.trans (labelled _ (state.newFrame kind exitLabel).startLabel)).before_silent ?_
  exact .of_push (extends_appended _ _) (nodes_appended _ _) fun _ => Emit.silent_pure _

/-- Destroying variables makes no call. -/
theorem destroyed
    (ids : List VarId)
    (state : LoweringState) :
    listing.Runs state (ids.foldl (fun current id => current.appended (.destroy id)) state)
      [] := by
  induction ids generalizing state with
  | nil => exact .of_same_nodes (.refl _) rfl
  | cons first rest inductionHypothesis =>
      have one : listing.Runs state (state.appended (.destroy first)) [] := by
        refine .of_push (extends_appended state _) (nodes_appended state _) ?_
        intro bound before result after run
        cases Stateful.modify_ok_iff.mp run
        exact Emit.destroy_becomes before first
      exact one.trans (inductionHypothesis _)

/-- The end of a scope makes no call. -/
theorem closed
    (state : LoweringState) :
    listing.Runs state (state.emptied.labelled state.innermost.endLabel) [] :=
  (destroyed _ state).trans (labelled _ _)

end Listing.Runs

namespace Lower

open LoweringState

variable
    {listing : Listing}
    {before after : LoweringState}
    {line : Nat}
    {done : Unit}
    {kind : Scope.Kind}
    {body : List Stmt}

/-- A scope makes the calls of its body. -/
theorem inScope_runs
    {exitLabel : String}
    (each : ∀ {before after : LoweringState},
      Inside before.listing.scopes before.scope → statements body before = .ok ((), after) →
        after.listing.Extends listing → listing.Runs before after routines)
    (lowered : inScope kind exitLabel (statements body) before = .ok (done, after))
    (grown : after.listing.Extends listing) :
    listing.Runs before after routines := by
  obtain ⟨between, _, bodyLowered, _, rfl⟩ := inScope_ok lowered
  have closes : listing.Runs between (between.emptied.labelled between.innermost.endLabel) [] :=
    .closed between
  have opens : listing.Runs before (before.entered kind exitLabel) [] := .entered _ _ _
  have inside := each (inside_entered before kind exitLabel) bodyLowered
    (closes.grown.trans grown)
  have pops : listing.Runs (between.emptied.labelled between.innermost.endLabel)
      (between.emptied.labelled between.innermost.endLabel).popped [] :=
    .of_same_nodes (.refl _) rfl
  exact (opens.trans inside).before_silent (closes.trans pops)

theorem condition_runs
    (numbered : listing.Numbered)
    (lowered : condition test whenTrue whenFalse falseFollows before = .ok (done, after))
    (grown : after.listing.Extends listing) :
    listing.Runs before after ((Condition.parts test).flatMap Part.called) :=
  ⟨(condition_proceeds lowered).extends_, fun emits agrees =>
    condition_traced numbered lowered grown emits agrees⟩

/-- An arm makes the calls of its condition, of its body and of the arms behind it. -/
theorem arm_runs
    (numbered : listing.Numbered)
    {whenTrue whenFalse endLabel : String}
    {next : Branch}
    {number arm : Nat}
    {tested chosen : LoweringState}
    (eachBody : ∀ {before after : LoweringState},
      Inside before.listing.scopes before.scope → statements body before = .ok ((), after) →
        after.listing.Extends listing →
        listing.Runs before after ((partsIn body).flatMap Part.called))
    (eachNext : ∀ {number arm : Nat} {endLabel : String} {before after : LoweringState},
      Inside before.listing.scopes before.scope →
        branch number arm endLabel next before = .ok ((), after) →
        after.listing.Extends listing →
        listing.Runs before after (next.parts.flatMap Part.called))
    (inside : Inside before.listing.scopes before.scope)
    (conditioned : condition test whenTrue whenFalse false before = .ok ((), tested))
    (bodyLowered : inScope kind "" (statements body) (tested.labelled whenTrue) =
      .ok ((), chosen))
    (branched : branch number arm endLabel next (skipped chosen endLabel next) =
      .ok ((), after))
    (grown : after.listing.Extends listing) :
    listing.Runs before after
      ((Condition.parts test ++ partsIn body ++ next.parts).flatMap Part.called) := by
  have testProceeds := condition_proceeds conditioned
  have labelProceeds := proceeds_labelled tested whenTrue
  have bodyProceeds := inScope_proceeds statements_proceeds bodyLowered
  have skipProceeds := composed_proceeds.skipped chosen endLabel next
  have toNext := testProceeds.trans (labelProceeds.trans (bodyProceeds.trans skipProceeds))
  have others := eachNext (inside.proceeds toNext) branched grown
  have skips : listing.Runs chosen (skipped chosen endLabel next) [] := .skipped _ _ _
  have skipGrown := skips.grown.trans (others.grown.trans grown)
  have inner := inScope_runs eachBody bodyLowered skipGrown
  have labels : listing.Runs tested (tested.labelled whenTrue) [] := .labelled _ _
  have tests := condition_runs numbered conditioned
    (labels.grown.trans (inner.grown.trans skipGrown))
  simpa using tests.trans (labels.trans (inner.trans (skips.trans others)))

/-- Every statement, arm and body makes the calls of its parts. -/
theorem lowering_runs
    (numbered : listing.Numbered) :
    (∀ statement_ : Stmt, ∀ {before after : LoweringState},
      Inside before.listing.scopes before.scope →
        statement statement_ before = .ok ((), after) → after.listing.Extends listing →
        listing.Runs before after (statement_.parts.flatMap Part.called)) ∧
    (∀ branch_ : Branch, ∀ {number arm : Nat} {endLabel : String}
      {before after : LoweringState},
      Inside before.listing.scopes before.scope →
        branch number arm endLabel branch_ before = .ok ((), after) →
        after.listing.Extends listing →
        listing.Runs before after (branch_.parts.flatMap Part.called)) ∧
    ∀ body : List Stmt, ∀ {before after : LoweringState},
      Inside before.listing.scopes before.scope →
        statements body before = .ok ((), after) → after.listing.Extends listing →
        listing.Runs before after ((partsIn body).flatMap Part.called) := by
  apply Stmt.induction
  case block =>
    intro line body bodyHypothesis before after inside lowered grown
    simpa [Stmt.parts] using inScope_runs bodyHypothesis (statement_block_ok lowered) grown
  case declare =>
    intro line name type value before after inside lowered grown
    rw [statement] at lowered
    rw [Stmt.parts]
    exact ⟨(declare_proceeds lowered).extends_, fun emits agrees =>
      declare_traced numbered inside lowered grown emits agrees⟩
  case function =>
    intro line name params result bodyLine body _ before after inside lowered
    exact (statement_function_ok.mp lowered).elim
  case assign =>
    intro line name index value before after inside lowered grown
    rw [statement] at lowered
    exact ⟨(assign_proceeds lowered).extends_, fun emits agrees =>
      assign_traced numbered lowered grown emits agrees⟩
  case call =>
    intro line callLine name builtin arguments before after inside lowered grown
    rw [statement] at lowered
    refine ⟨(callStatement_computes lowered).extends_, fun emits agrees => ?_⟩
    simpa [Stmt.parts] using callStatement_traced numbered lowered grown emits agrees
  case leave =>
    intro line value before after inside lowered grown
    rw [statement] at lowered
    rw [Stmt.parts]
    exact ⟨(leave_proceeds lowered).extends_, fun emits agrees =>
      leave_traced numbered lowered grown emits agrees⟩
  case choose =>
    intro line test bodyLine body next bodyHypothesis nextHypothesis before after inside lowered
      grown
    obtain ⟨tested, chosen, branched, _, conditioned, _, bodyLowered, nextLowered, _, rfl⟩ :=
      statement_choose_ok lowered
    let stem := chooseStem before.listing.labelCount
    have numbers : listing.Runs before before.numbered [] :=
      .of_same_nodes (proceeds_numbered before).extends_ rfl
    have starts : listing.Runs before.numbered (before.numbered.labelled (stem ++ "_START")) [] :=
      .labelled _ _
    have ends : listing.Runs branched (branched.labelled (stem ++ "_END")) [] := .labelled _ _
    have toStart := (proceeds_numbered before).trans
      (proceeds_labelled before.numbered (stem ++ "_START"))
    have arm := arm_runs numbered bodyHypothesis nextHypothesis (inside.proceeds toStart)
      conditioned bodyLowered nextLowered (ends.grown.trans grown)
    simpa [Stmt.parts] using (numbers.trans (starts.trans arm)).before_silent ends
  case loop =>
    intro line test bodyLine body bodyHypothesis before after inside lowered grown
    obtain ⟨looped, tested, _, bodyLowered, _, conditioned, _, rfl⟩ := statement_loop_ok lowered
    let stem := loopStem before.listing.labelCount
    have numbers : listing.Runs before before.numbered [] :=
      .of_same_nodes (proceeds_numbered before).extends_ rfl
    have jumps : listing.Runs before.numbered
        (before.numbered.appended (.jump (stem ++ "_COND") none)) [] := .jumped _ _ _
    have starts : listing.Runs (before.numbered.appended (.jump (stem ++ "_COND") none))
        ((before.numbered.appended (.jump (stem ++ "_COND") none)).labelled
          (stem ++ "_START")) [] := .labelled _ _
    have ends : listing.Runs tested (tested.labelled (stem ++ "_END")) [] := .labelled _ _
    have tests := condition_runs numbered conditioned (ends.grown.trans grown)
    have labels : listing.Runs looped (looped.labelled (stem ++ "_COND")) [] := .labelled _ _
    have inner := inScope_runs bodyHypothesis bodyLowered
      (labels.grown.trans (tests.grown.trans (ends.grown.trans grown)))
    have opens := numbers.trans (jumps.trans starts)
    have whole := opens.trans (inner.trans (labels.trans (tests.before_silent ends)))
    simpa [Stmt.parts] using whole
  case exit =>
    intro line before after inside lowered grown
    rw [statement] at lowered
    cases exit_ok lowered
    simpa [Stmt.parts] using Listing.Runs.jumped before before.exitTarget none
  case none =>
    intro number arm endLabel before after inside lowered grown
    cases branch_none_ok lowered
    simpa [Branch.parts] using Listing.Runs.of_same_nodes (.refl _) rfl
  case elif =>
    intro line test bodyLine body next bodyHypothesis nextHypothesis number arm endLabel before
      after inside lowered grown
    obtain ⟨tested, chosen, _, conditioned, _, bodyLowered, nextLowered⟩ :=
      branch_elif_ok lowered
    have starts : listing.Runs before (before.labelled (armLabel number arm)) [] := .labelled _ _
    have rest := arm_runs numbered bodyHypothesis nextHypothesis
      (inside.proceeds (proceeds_labelled before (armLabel number arm))) conditioned bodyLowered
      nextLowered grown
    simpa [Branch.parts] using starts.trans rest
  case otherwise =>
    intro line bodyLine body bodyHypothesis number arm endLabel before after inside lowered grown
    obtain ⟨_, bodyLowered⟩ := branch_otherwise_ok lowered
    have labels : listing.Runs before (before.labelled (armLabel number arm)) [] := .labelled _ _
    simpa [Branch.parts] using labels.trans (inScope_runs bodyHypothesis bodyLowered grown)
  case nil =>
    intro before after inside lowered grown
    cases statements_nil_ok lowered
    simpa [partsIn] using Listing.Runs.of_same_nodes (.refl _) rfl
  case cons =>
    intro first rest firstHypothesis restHypothesis before after inside lowered grown
    obtain ⟨between, firstLowered, restLowered⟩ := statements_cons_ok lowered
    have others := restHypothesis (inside.proceeds (statement_proceeds firstLowered)) restLowered
      grown
    have one := firstHypothesis inside firstLowered (others.grown.trans grown)
    simpa [partsIn] using one.trans others

end Lower

end IlsCompiler
